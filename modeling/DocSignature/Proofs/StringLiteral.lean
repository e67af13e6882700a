import DocSignature.Proofs.Grammar
import DocSignature.Proofs.JsonRoundTrip
import DocSignature.Proofs.Spans

/-!
# Values of string literals

The value of a string literal is the texts of its parts, laid end to end and joined
(`stringValue_of_parts`).

`EscapeValue` gives the units that an escape stands for in JavaScript, and `PartValue` those of any
part. An escape is read as these units, except in two cases (`MisreadText`) : three digits in base
eight past the last octet, of which the last is an ordinary character, and the ends of lines
`U+2028` and `U+2029`, which continue a line like any other. `stringValue_units_iff` is that a
literal has the value it has in JavaScript exactly if there is no such escape in it.

Whatever the texts of the parts are, joining keeps their 16-bit units, and the value is the only
joined text with these units (`joinPairs_only_joined`). So a unit may be spelled by an escape of its
own, and the halves of a pair may come from two of them.
-/

namespace DocSignature

/-! ## Parts laid end to end -/

theorem partValues_of_forall₂ {src : Source} {parts : List Node} {ts : List Text}
    (h : List.Forall₂ (fun part t => partValue src part = .ok t) parts ts) :
    partValues src parts = .ok ts.flatten := by
  induction h with
  | nil => rfl
  | cons hpart _ ih =>
    rw [partValues, hpart, ih]
    rfl

/-- The value of a literal is that of its parts, joined. -/
theorem stringValue_of_parts {src : Source} {literal : Node} {ts : List Text}
    (h : List.Forall₂ (fun part t => partValue src part = .ok t) literal.namedChildren ts) :
    stringValue src literal = .ok (Text.joinPairs ts.flatten) := by
  rw [stringValue, partValues_of_forall₂ h]
  rfl

theorem partValue_of_plain (src : Source) {part : Node} (kind : part.kind ≠ "escape_sequence") :
    partValue src part = .ok (Text.ofString (part.text src)) := by
  simp only [partValue, beq_iff_eq, kind, if_false]
  rfl

theorem partValue_of_meaning {src : Source} {part : Node} (kind : part.kind = "escape_sequence")
    {t : Text} (h : Escape.meaning ((part.text src).toList.drop 1) = .ok t) :
    partValue src part = .ok t := by
  simp only [partValue, kind, BEq.rfl, if_true, h]

/-! ## What escapes stand for -/

/-- The ends of lines. -/
def lineEnds : List (List Char) := [['\n'], ['\r'], ['\r', '\n'], ['\u2028'], ['\u2029']]

/-- The units that an escape stands for in JavaScript. -/
inductive EscapeValue : List Char → List ℕ → Prop
  /-- A letter stands for a control character. -/
  | control {c : Char} {code : ℕ} (hc : (c, code) ∈ controlCodes) : EscapeValue ['\\', c] [code]
  /-- A line goes on behind its end. -/
  | lineEnd {ending : List Char} (hending : ending ∈ lineEnds) : EscapeValue ('\\' :: ending) []
  /-- Any other character stands for itself. -/
  | itself {c : Char} (hc : c ∉ ['x', 'u', '0', '1', '2', '3', '4', '5', '6', '7'])
      (hcontrol : ∀ code, (c, code) ∉ controlCodes) (hline : [c] ∉ lineEnds) :
      EscapeValue ['\\', c] (CodePoint.ofChar c).units
  /-- Digits in base eight stand for an octet. -/
  | octal {digits : List Char} (hdigits : Numeral.AllIn 8 digits) (hne : digits ≠ [])
      (hlength : digits.length ≤ 3) (hle : Numeral.positional 8 digits ≤ 0xFF) :
      EscapeValue ('\\' :: digits) [Numeral.positional 8 digits]
  /-- If three of them are past the last octet, the third is an ordinary character. -/
  | octalPair {a b c : Char} (hdigits : Numeral.AllIn 8 [a, b, c])
      (hlt : 0xFF < Numeral.positional 8 [a, b, c]) :
      EscapeValue ['\\', a, b, c] [Numeral.positional 8 [a, b], c.toNat]
  /-- Two hexadecimal digits stand for an octet. -/
  | byte {digits : List Char} (hdigits : Numeral.AllIn 16 digits) (hlength : digits.length = 2) :
      EscapeValue ('\\' :: 'x' :: digits) [Numeral.positional 16 digits]
  /-- Four hexadecimal digits stand for a unit. -/
  | unit {digits : List Char} (hdigits : Numeral.AllIn 16 digits) (hlength : digits.length = 4) :
      EscapeValue ('\\' :: 'u' :: digits) [Numeral.positional 16 digits]
  /-- Hexadecimal digits in braces stand for a code point. -/
  | braces {digits : List Char} {p : CodePoint} (hdigits : Numeral.AllIn 16 digits)
      (hne : digits ≠ []) (hp : p.val = Numeral.positional 16 digits) :
      EscapeValue ('\\' :: 'u' :: '{' :: (digits ++ ['}'])) p.units

/-- The escapes that are read as something else : three digits in base eight past the last octet,
and two of the ends of lines. -/
inductive MisreadText : List Char → Prop
  | octal {a b c : Char} (hdigits : Numeral.AllIn 8 [a, b, c])
      (hlt : 0xFF < Numeral.positional 8 [a, b, c]) : MisreadText ['\\', a, b, c]
  | lineEnd {c : Char} (hc : c ∈ ['\u2028', '\u2029']) : MisreadText ['\\', c]

/-- Every escape of the grammar stands for something, unless its code is past the last one. -/
theorem EscapeText.exists_value {s : List Char} (h : EscapeText s) (hbeyond : ¬BeyondText s) :
    ∃ us, EscapeValue s us := by
  cases h with
  | @single c hc =>
    by_cases hcontrol : ∃ code, (c, code) ∈ controlCodes
    · obtain ⟨code, hcode⟩ := hcontrol
      exact ⟨_, .control hcode⟩
    · by_cases hline : [c] ∈ lineEnds
      · exact ⟨_, .lineEnd hline⟩
      · exact ⟨_, .itself hc (not_exists.mp hcontrol) hline⟩
  | @octal digits hdigits hne hlength =>
    by_cases hle : Numeral.positional 8 digits ≤ 0xFF
    · exact ⟨_, .octal hdigits hne hlength hle⟩
    · -- Fewer than three digits are not past the last octet.
      have hlt := Numeral.valueIn_lt hdigits
      rw [Numeral.valueIn_eq_positional (by decide) hdigits] at hlt
      match digits, hne, hlength with
      | [_], _, _ => exact absurd (hlt.le.trans (by simp)) hle
      | [_, _], _, _ => exact absurd (hlt.le.trans (by simp)) hle
      | [_, _, _], _, _ => exact ⟨_, .octalPair hdigits (not_le.mp hle)⟩
  | byte hdigits hlength => exact ⟨_, .byte hdigits hlength⟩
  | unit hdigits hlength => exact ⟨_, .unit hdigits hlength⟩
  | @braces digits hdigits hne =>
    have hle : Numeral.valueIn 16 digits ≤ 0x10FFFF :=
      not_lt.mp fun hlt => hbeyond ⟨digits, rfl, hdigits, hne, hlt⟩
    rw [Numeral.valueIn_eq_positional (le_refl 16) hdigits] at hle
    exact ⟨_, .braces (p := ⟨_, Nat.lt_succ_of_le hle⟩) hdigits hne rfl⟩
  | lineEnd => exact ⟨_, .lineEnd (by decide)⟩

/-! ## What escapes are read as -/

/-- Units as they are read beside those that are meant : the same, or with a larger sum where
something is misread, so that what is misread in one place is not made good in another. -/
structure ReadAs (misread : Prop) (given meant : List ℕ) : Prop where
  same : ¬misread → given = meant
  more : misread → meant.sum < given.sum

namespace ReadAs

variable {misread misread' : Prop} {given given' meant meant' : List ℕ}

theorem of_eq (hread : ¬misread) (h : given = meant) : ReadAs misread given meant :=
  ⟨fun _ => h, fun hmisread => absurd hmisread hread⟩

theorem of_lt (hmisread : misread) (h : meant.sum < given.sum) : ReadAs misread given meant :=
  ⟨fun hread => absurd hmisread hread, fun _ => h⟩

theorem sum_le (h : ReadAs misread given meant) : meant.sum ≤ given.sum := by
  by_cases hmisread : misread
  · exact (h.more hmisread).le
  · rw [h.same hmisread]

theorem append (h : ReadAs misread given meant) (h' : ReadAs misread' given' meant') :
    ReadAs (misread ∨ misread') (given ++ given') (meant ++ meant') where
  same hread := by
    rw [not_or] at hread
    rw [h.same hread.1, h'.same hread.2]
  more hmisread := by
    rw [List.sum_append, List.sum_append]
    rcases hmisread with hmisread | hmisread
    · exact Nat.add_lt_add_of_lt_of_le (h.more hmisread) h'.sum_le
    · exact Nat.add_lt_add_of_le_of_lt h.sum_le (h'.more hmisread)

theorem eq_iff (h : ReadAs misread given meant) : given = meant ↔ ¬misread := by
  refine ⟨fun heq hmisread => ?_, h.same⟩
  have hlt := h.more hmisread
  rw [heq] at hlt
  exact lt_irrefl _ hlt

end ReadAs

theorem MisreadText.of_single {c : Char} (h : MisreadText ['\\', c]) :
    c ∈ ['\u2028', '\u2029'] := by
  cases h with
  | lineEnd hc => exact hc

theorem not_misreadText_hex {mark : Char} (hmark : mark = 'x' ∨ mark = 'u') (s : List Char) :
    ¬MisreadText ('\\' :: mark :: s) := by
  intro h
  cases h with
  | octal hdigits _ =>
    have hdigit := hdigits mark List.mem_cons_self
    rcases hmark with rfl | rfl <;> revert hdigit <;> decide
  | lineEnd hc => rcases hmark with rfl | rfl <;> revert hc <;> decide

theorem not_misreadText_octal {digits : List Char} (hdigits : Numeral.AllIn 8 digits)
    (hle : Numeral.positional 8 digits ≤ 0xFF) : ¬MisreadText ('\\' :: digits) := by
  intro h
  cases h with
  | octal _ hlt => omega
  | @lineEnd c hc =>
    have hdigit := hdigits c List.mem_cons_self
    have table : ∀ c ∈ ['\u2028', '\u2029'], (Numeral.digitIn? 8 c).isSome = false :=
      List.all_iff_forall_prop.mp (by decide)
    rw [table c hc] at hdigit
    cases hdigit

namespace Escape

theorem meaning_control {c : Char} {code : ℕ} (hc : (c, code) ∈ controlCodes) :
    ∃ k, meaning [c] = .ok [CodePoint.ofChar k] ∧ (CodePoint.ofChar k).units = [code] := by
  simp only [controlCodes, List.mem_cons, List.not_mem_nil, or_false, Prod.mk.injEq] at hc
  rcases hc with ⟨rfl, rfl⟩ | ⟨rfl, rfl⟩ | ⟨rfl, rfl⟩ | ⟨rfl, rfl⟩ | ⟨rfl, rfl⟩ | ⟨rfl, rfl⟩ <;>
    exact ⟨_, rfl, rfl⟩

/-- A character that is in none of the tables stands for itself. -/
theorem meaning_itself {c : Char} (hc : c ∉ ['x', 'u', '0', '1', '2', '3', '4', '5', '6', '7'])
    (hcontrol : ∀ code, (c, code) ∉ controlCodes) (hline : [c] ∉ lineEnds) :
    meaning [c] = .ok [CodePoint.ofChar c] := by
  simp only [List.mem_cons, not_or] at hc
  have hnone : control? [c] = none := by
    cases h : control? [c] with
    | none => rfl
    | some k =>
      rcases control?_eq_some h with ⟨hzero, -⟩ | ⟨c', hc', hk⟩
      · exact absurd (List.cons.inj hzero).1 hc.2.2.1
      · rw [← (List.cons.inj hc').1] at hk
        exact absurd hk (hcontrol _)
  have hreturn : c ≠ '\r' := by rintro rfl; exact hline (by decide)
  have hfeed : c ≠ '\n' := by rintro rfl; exact hline (by decide)
  have hother : ofOther [c] = [CodePoint.ofChar c] := if_neg (by simp [hreturn, hfeed])
  rw [meaning_cons hc.2.1 hc.1, hnone, octal?_single (by simpa using hc), hother]

end Escape

theorem readAs_hex {mark : Char} (hmark : mark = 'x' ∨ mark = 'u') {digits : List Char}
    (hdigits : Numeral.AllIn 16 digits) (hne : digits ≠ []) (hlength : digits.length ≤ 4) :
    ∃ t, Escape.meaning (mark :: digits) = .ok t ∧
      ReadAs (MisreadText ('\\' :: mark :: digits)) t.units [Numeral.positional 16 digits] := by
  obtain ⟨p, hp, hval, hlt⟩ := Escape.exists_meaning_hex hmark hdigits hne hlength
  refine ⟨_, hp, .of_eq (not_misreadText_hex hmark _) ?_⟩
  rw [Text.units_singleton, CodePoint.units_of_lt hlt, hval]

/-- An escape is read as the units it stands for, unless it is one of those misread. -/
theorem EscapeValue.readAs {s : List Char} {us : List ℕ} (h : EscapeValue s us) :
    ∃ t, Escape.meaning (s.drop 1) = .ok t ∧ ReadAs (MisreadText s) t.units us := by
  cases h with
  | @control c code hc =>
    obtain ⟨k, hk, hunits⟩ := Escape.meaning_control hc
    refine ⟨_, hk, .of_eq (fun h => ?_) ((Text.units_singleton _).trans hunits)⟩
    have table : ∀ e ∈ controlCodes, e.1 ∉ ['\u2028', '\u2029'] := by decide
    exact table _ hc h.of_single
  | @lineEnd ending hending =>
    simp only [lineEnds, List.mem_cons, List.not_mem_nil, or_false] at hending
    rcases hending with rfl | rfl | rfl | rfl | rfl
    · exact ⟨[], rfl, .of_eq (fun h => absurd h.of_single (by decide)) rfl⟩
    · exact ⟨[], rfl, .of_eq (fun h => absurd h.of_single (by decide)) rfl⟩
    · exact ⟨[], rfl, .of_eq (by rintro ⟨⟩) rfl⟩
    -- The last two are taken for characters that stand for themselves.
    · exact ⟨_, rfl, .of_lt (.lineEnd (by decide)) (by decide)⟩
    · exact ⟨_, rfl, .of_lt (.lineEnd (by decide)) (by decide)⟩
  | @itself c hc hcontrol hline =>
    refine ⟨_, Escape.meaning_itself hc hcontrol hline, .of_eq (fun h => hline ?_)
      (Text.units_singleton _)⟩
    have table : ∀ c ∈ ['\u2028', '\u2029'], [c] ∈ lineEnds :=
      List.all_iff_forall_prop.mp (by decide)
    exact table c h.of_single
  | @octal digits hdigits hne hlength hle =>
    obtain ⟨p, hp, hval, hlt⟩ := Escape.exists_meaning_octal hdigits hne hlength
    refine ⟨_, hp, .of_eq (not_misreadText_octal hdigits hle) ?_⟩
    rw [Text.units_singleton, CodePoint.units_of_lt hlt, hval]
  | @octalPair a b c hdigits hlt =>
    -- The two units that are meant are small : two digits, and the number of a digit.
    obtain ⟨p, hp, hval, hp'⟩ := Escape.exists_meaning_octal hdigits (by simp) (by simp)
    have htwo : Numeral.AllIn 8 [a, b] := fun d hd => hdigits d (by simp at hd ⊢; tauto)
    have hpair := Numeral.valueIn_lt htwo
    rw [Numeral.valueIn_eq_positional (by decide) htwo] at hpair
    have table : ∀ d ∈ Numeral.digitChars, d.toNat ≤ 102 :=
      List.all_iff_forall_prop.mp (by decide)
    have hc := table c (hdigits.mem_digitChars c (by simp))
    refine ⟨_, hp, .of_lt (.octal hdigits hlt) ?_⟩
    rw [Text.units_singleton, CodePoint.units_of_lt hp', hval, List.sum_singleton]
    simp only [List.length_cons, List.length_nil, List.sum_cons, List.sum_nil] at hpair ⊢
    omega
  | @byte digits hdigits hlength =>
    exact readAs_hex (Or.inl rfl) hdigits (List.ne_nil_of_length_pos (by omega)) (by omega)
  | @unit digits hdigits hlength =>
    exact readAs_hex (Or.inr rfl) hdigits (List.ne_nil_of_length_pos (by omega)) (by omega)
  | @braces digits p hdigits hne hp =>
    have hval : Numeral.valueIn 16 digits = p.val :=
      (Numeral.valueIn_eq_positional (le_refl 16) hdigits).trans hp.symm
    have hmeaning : Escape.meaning ('u' :: '{' :: (digits ++ ['}'])) = .ok [p] := by
      rw [Escape.meaning_braces hdigits hne, hval, if_neg (by have := p.isLt; omega),
        Escape.ofCode_eq p.isLt]
    exact ⟨_, hmeaning, .of_eq (not_misreadText_hex (Or.inr rfl) _) (Text.units_singleton p)⟩

/-! ## Parts of literals -/

/-- The units that a part of a literal stands for in JavaScript. -/
inductive PartValue (src : Source) (part : Node) : List ℕ → Prop
  /-- Plain characters stand for themselves. -/
  | plain (kind : part.kind ≠ "escape_sequence") :
      PartValue src part (Text.ofString (part.text src)).units
  | escape (kind : part.kind = "escape_sequence") {us : List ℕ}
      (h : EscapeValue (part.text src).toList us) : PartValue src part us

/-- A part is plain, or an escape of the grammar whose code is not past the last one. -/
def Node.Spelled (src : Source) (part : Node) : Prop :=
  part.kind = "escape_sequence" →
    EscapeText (part.text src).toList ∧ ¬BeyondText (part.text src).toList

/-- A part is an escape that is read as something else. -/
def Node.Misread (src : Source) (part : Node) : Prop :=
  part.kind = "escape_sequence" ∧ MisreadText (part.text src).toList

theorem Node.Spelled.of_text {src : Source} {part : Node} {s : List Char}
    (htext : (part.text src).toList = s) (hescape : EscapeText s)
    (hmeaning : Escape.meaning (s.drop 1) ≠ .error .beyond) : part.Spelled src := by
  intro _
  rw [htext]
  exact ⟨hescape, fun hbeyond => hmeaning hbeyond.meaning⟩

theorem PartValue.readAs {src : Source} {part : Node} {us : List ℕ} (h : PartValue src part us) :
    ∃ t, partValue src part = .ok t ∧ ReadAs (part.Misread src) t.units us := by
  cases h with
  | plain kind =>
    exact ⟨_, partValue_of_plain src kind, .of_eq (fun h => kind h.1) rfl⟩
  | escape kind h =>
    obtain ⟨t, ht, hread⟩ := h.readAs
    refine ⟨t, partValue_of_meaning kind ht, ?_⟩
    rwa [Node.Misread, and_iff_right kind]

/-- What is read of the parts laid end to end is what is read of each. -/
theorem exists_texts_of_partValues {src : Source} {parts : List Node} {values : List (List ℕ)}
    (h : List.Forall₂ (PartValue src) parts values) :
    ∃ ts : List Text, List.Forall₂ (fun part t => partValue src part = .ok t) parts ts ∧
      ReadAs (∃ part ∈ parts, part.Misread src) (ts.flatMap Text.units) values.flatten := by
  induction h with
  | nil => exact ⟨[], .nil, .of_eq (by simp) rfl⟩
  | cons hpart _ ih =>
    obtain ⟨t, ht, hread⟩ := hpart.readAs
    obtain ⟨ts, hts, hreads⟩ := ih
    refine ⟨t :: ts, .cons ht hts, ?_⟩
    rw [List.flatMap_cons, List.flatten_cons]
    simpa only [List.exists_mem_cons_iff] using hread.append hreads

theorem stringValue_readAs {src : Source} {literal : Node} {values : List (List ℕ)}
    (h : List.Forall₂ (PartValue src) literal.namedChildren values) :
    ∃ t, stringValue src literal = .ok t ∧ t.Joined ∧
      ReadAs (∃ part ∈ literal.namedChildren, part.Misread src) t.units values.flatten := by
  obtain ⟨ts, hts, hread⟩ := exists_texts_of_partValues h
  refine ⟨_, stringValue_of_parts hts, Text.joined_joinPairs _, ?_⟩
  rwa [Text.units_joinPairs, Text.units_flatten]

theorem exists_partValues {src : Source} : ∀ {parts : List Node},
    (∀ part ∈ parts, part.Spelled src) → ∃ values, List.Forall₂ (PartValue src) parts values
  | [], _ => ⟨[], .nil⟩
  | part :: parts, h => by
    obtain ⟨hpart, hparts⟩ := List.forall_mem_cons.mp h
    obtain ⟨values, hvalues⟩ := exists_partValues hparts
    by_cases kind : part.kind = "escape_sequence"
    · obtain ⟨hescape, hbeyond⟩ := hpart kind
      obtain ⟨us, hus⟩ := hescape.exists_value hbeyond
      exact ⟨us :: values, .cons (.escape kind hus) hvalues⟩
    · exact ⟨_ :: values, .cons (.plain kind) hvalues⟩

/-- A literal of the grammar, with no code past the last one, has a value, and its parts stand for
something. The value has the units that they stand for, end to end, exactly if no part is one of the
escapes that are misread. -/
theorem stringValue_units_iff (src : Source) (literal : Node)
    (h : ∀ part ∈ literal.namedChildren, part.Spelled src) :
    ∃ t, stringValue src literal = .ok t ∧
      (∃ values, List.Forall₂ (PartValue src) literal.namedChildren values) ∧
      ∀ values, List.Forall₂ (PartValue src) literal.namedChildren values →
        (t.units = values.flatten ↔ ∀ part ∈ literal.namedChildren, ¬part.Misread src) := by
  obtain ⟨values, hvalues⟩ := exists_partValues h
  obtain ⟨t, ht, -⟩ := stringValue_readAs hvalues
  refine ⟨t, ht, ⟨values, hvalues⟩, fun values' hvalues' => ?_⟩
  obtain ⟨t', ht', -, hread⟩ := stringValue_readAs hvalues'
  obtain rfl : t = t' := Except.ok.inj (ht.symm.trans ht')
  rw [hread.eq_iff]
  simp only [not_exists, not_and]

/-- The source of `escapedLiteral`. -/
def escapedSource : Source := .ofString "\"ä\\377\\u\x7b1F600\x7d\""

/-- A literal of a plain character, the last octet and a code point of two units. -/
def escapedLiteral : Node :=
  .make "string" 0 17 none true false
    [.make "string_fragment" 1 3 none true false [],
      .make "escape_sequence" 3 7 none true false [],
      .make "escape_sequence" 7 16 none true false []]

theorem spelled_escapedLiteral :
    ∀ part ∈ escapedLiteral.namedChildren, part.Spelled escapedSource := by
  have hoctal : (escapedSource.text 3 7).toList = '\\' :: ['3', '7', '7'] := by decide +kernel
  have hbraces : (escapedSource.text 7 16).toList =
      '\\' :: 'u' :: '{' :: (['1', 'F', '6', '0', '0'] ++ ['}']) := by decide +kernel
  refine List.forall_mem_cons.mpr ⟨fun kind => absurd kind (by decide), List.forall_mem_cons.mpr
    ⟨.of_text hoctal ?_ (by decide),
      List.forall_mem_singleton.mpr (.of_text hbraces ?_ (by decide))⟩⟩
  · exact .octal (List.all_iff_forall_prop.mp (by decide)) (by decide) (by decide)
  · exact .braces (List.all_iff_forall_prop.mp (by decide)) (by decide)

theorem stringValue_escapedLiteral :
    (∀ part ∈ escapedLiteral.namedChildren, part.Spelled escapedSource) ∧
    ∃ t, stringValue escapedSource escapedLiteral = .ok t ∧
      (∃ values, List.Forall₂ (PartValue escapedSource) escapedLiteral.namedChildren values) ∧
      ∀ values, List.Forall₂ (PartValue escapedSource) escapedLiteral.namedChildren values →
        (t.units = values.flatten ↔
          ∀ part ∈ escapedLiteral.namedChildren, ¬part.Misread escapedSource) :=
  ⟨spelled_escapedLiteral,
    stringValue_units_iff escapedSource escapedLiteral spelled_escapedLiteral⟩

/-- The source of `misreadLiteral`. -/
def misreadSource : Source := .ofString "\"\\400\\\u2028\""

/-- A literal of the two kinds of escapes that are misread. -/
def misreadLiteral : Node :=
  .make "string" 0 10 none true false
    [.make "escape_sequence" 1 5 none true false [],
      .make "escape_sequence" 5 9 none true false []]

/-- It stands for a blank and a zero, and is read as two other characters. -/
theorem stringValue_misreadLiteral_ne :
    (∀ part ∈ misreadLiteral.namedChildren, part.Spelled misreadSource) ∧
    ∃ values, List.Forall₂ (PartValue misreadSource) misreadLiteral.namedChildren values ∧
      values.flatten = [0x20, 0x30] ∧
      ∃ t, stringValue misreadSource misreadLiteral = .ok t ∧ t.units = [0x100, 0x2028] := by
  have hoctal : (misreadSource.text 1 5).toList = '\\' :: ['4', '0', '0'] := by decide +kernel
  have hline : (misreadSource.text 5 9).toList = ['\\', '\u2028'] := by decide +kernel
  have hdigits : Numeral.AllIn 8 ['4', '0', '0'] := List.all_iff_forall_prop.mp (by decide)
  constructor
  · exact List.forall_mem_cons.mpr
      ⟨.of_text hoctal (.octal hdigits (by decide) (by decide)) (by decide),
        List.forall_mem_singleton.mpr (.of_text hline (.single (by decide)) (by decide))⟩
  · have hpair : EscapeValue (misreadSource.text 1 5).toList [0x20, 0x30] := by
      rw [hoctal]
      exact .octalPair hdigits (by decide)
    have hnothing : EscapeValue (misreadSource.text 5 9).toList [] := by
      rw [hline]
      exact .lineEnd (by decide)
    refine ⟨[[0x20, 0x30], []], .cons (.escape rfl hpair) (.cons (.escape rfl hnothing) .nil), rfl,
      [0x100, 0x2028], by decide +kernel, by decide +kernel⟩

/-! ## Escapes of single units -/

/-- The text of an escape that spells a unit with four hexadecimal digits. -/
def SpellsUnit (s : List Char) (u : ℕ) : Prop :=
  ∃ digits, s = '\\' :: 'u' :: digits ∧ Numeral.AllIn 16 digits ∧ digits.length = 4 ∧
    Numeral.positional 16 digits = u

/-- A part of a literal is such an escape. -/
def SpellingPart (src : Source) (part : Node) (u : ℕ) : Prop :=
  part.kind = "escape_sequence" ∧ SpellsUnit (part.text src).toList u

theorem SpellingPart.value {src : Source} {part : Node} {u : ℕ} (h : SpellingPart src part u) :
    ¬part.Misread src ∧ PartValue src part [u] := by
  obtain ⟨kind, digits, htext, hdigits, hlength, rfl⟩ := h
  constructor
  · rintro ⟨-, hmisread⟩
    rw [htext] at hmisread
    exact not_misreadText_hex (Or.inr rfl) _ hmisread
  · refine .escape kind ?_
    rw [htext]
    exact .unit hdigits hlength

/-- A literal of such escapes has the units that they spell. -/
theorem stringValue_of_spellingParts {src : Source} {literal : Node} {us : List ℕ}
    (h : List.Forall₂ (SpellingPart src) literal.namedChildren us) :
    ∃ t, stringValue src literal = .ok t ∧ t.units = us ∧ t.Joined := by
  obtain ⟨hread, hvalues⟩ := (List.forall₂_and_left _ _).mp (h.imp fun _ _ => SpellingPart.value)
  obtain ⟨t, ht, hjoined, hreads⟩ := stringValue_readAs (List.forall₂_map_right_iff.mpr hvalues)
  refine ⟨t, ht, ?_, hjoined⟩
  rw [hreads.same (by simpa using hread)]
  exact List.flatMap_singleton' us

/-! ## A source for any units -/

theorem Utf8.length_encode_of_lt {s : List Char} (h : ∀ c ∈ s, c.toNat < 128) :
    (encode s).length = s.length := by
  induction s with
  | nil => rfl
  | cons c s ih =>
    obtain ⟨hc, hs⟩ := List.forall_mem_cons.mp h
    rw [encode_cons, (encodeChar_one hc).1, List.singleton_append, List.length_cons, ih hs,
      List.length_cons]

/-- Escapes laid end to end. -/
def unitParts (start : ℕ) : List (Fin 0x10000) → List Node
  | [] => []
  | _ :: us =>
    .make "escape_sequence" start (start + 6) none true false [] :: unitParts (start + 6) us

theorem named_of_mem_unitParts : ∀ {start : ℕ} {us : List (Fin 0x10000)},
    ∀ part ∈ unitParts start us, part.named
  | _, [], _, hpart => by simp [unitParts] at hpart
  | _, _ :: _, part, hpart => by
    rw [unitParts, List.mem_cons] at hpart
    rcases hpart with rfl | hpart
    · rfl
    · exact named_of_mem_unitParts part hpart

theorem allIn_hexDigits : ∀ (width n : ℕ), Numeral.AllIn 16 (Json.hexDigits width n)
  | 0, _, _, hc => by simp [Json.hexDigits] at hc
  | width + 1, n, c, hc => by
    rw [Json.hexDigits, List.mem_append, List.mem_singleton] at hc
    rcases hc with hc | rfl
    · exact allIn_hexDigits width (n / 16) c hc
    · simp [Json.digitIn?_hexDigit (Nat.mod_lt n (by decide))]

theorem spellsUnit_escapeUnit (u : Fin 0x10000) : SpellsUnit (Json.escapeUnit u.val) u.val := by
  refine ⟨_, rfl, allIn_hexDigits 4 u.val, rfl, ?_⟩
  have hdigit (m : ℕ) : Numeral.digitValue (Json.hexDigit (m % 16)) = m % 16 := by
    rw [Numeral.digitValue, Json.digitIn?_hexDigit (Nat.mod_lt m (by decide)), Option.getD_some]
  have hu := u.isLt
  simp only [Json.hexDigits, Numeral.positional, List.nil_append, List.cons_append,
    List.reverse_cons, List.reverse_nil, List.map_cons, List.map_nil, Nat.ofDigits_cons,
    Nat.ofDigits_nil, hdigit]
  omega

/-- The characters of such escapes. -/
def unitChars (us : List (Fin 0x10000)) : List Char := us.flatMap fun u => Json.escapeUnit u.val

theorem spellingPart_unitParts : ∀ (us : List (Fin 0x10000)) (front : List UInt8),
    List.Forall₂ (SpellingPart ⟨front ++ Utf8.encode (unitChars us)⟩) (unitParts front.length us)
      (us.map Fin.val)
  | [], _ => .nil
  | u :: us, front => by
    have hascii : ∀ c ∈ Json.escapeUnit u.val, c.toNat < 128 := Json.toNat_lt_of_mem_escapeUnit
    have hlength : (Utf8.encode (Json.escapeUnit u.val)).length = 6 :=
      Utf8.length_encode_of_lt hascii
    rw [unitChars, List.flatMap_cons, Utf8.encode_append]
    refine .cons ⟨rfl, ?_⟩ ?_
    · have htext := Source.text_between (Json.escapeUnit u.val) front (Utf8.encode (unitChars us))
      rw [hlength] at htext
      change SpellsUnit (Source.text _ front.length (front.length + 6)).toList u.val
      rw [← unitChars, htext, String.toList_ofList]
      exact spellsUnit_escapeUnit u
    · have htail := spellingPart_unitParts us (front ++ Utf8.encode (Json.escapeUnit u.val))
      rwa [List.length_append, hlength, List.append_assoc] at htail

/-- Any units can be spelled, each by an escape of its own. -/
theorem exists_spellingParts (us : List (Fin 0x10000)) : ∃ (src : Source) (literal : Node),
    List.Forall₂ (SpellingPart src) literal.namedChildren (us.map Fin.val) := by
  refine ⟨⟨Utf8.encode (unitChars us)⟩, .make "string" 0 0 none true false (unitParts 0 us), ?_⟩
  have hchildren : (Node.make "string" 0 0 none true false (unitParts 0 us)).namedChildren =
      unitParts 0 us := List.filter_eq_self.mpr named_of_mem_unitParts
  rw [hchildren]
  exact spellingPart_unitParts us []

open Text in
/-- The texts of the parts of a literal are laid end to end and joined. Whatever they are, joining
keeps their units and leaves no pair, a second time changes nothing, and no other text has these
units and no pair. So units can be spelled one by one : any list of them can, and a literal that
does has just these units. -/
theorem joinPairs_only_joined (parts : List Text) :
    (∀ src literal,
      List.Forall₂ (fun part t => partValue src part = .ok t) literal.namedChildren parts →
        stringValue src literal = .ok (joinPairs parts.flatten)) ∧
    units (joinPairs parts.flatten) = parts.flatMap units ∧
    Joined (joinPairs parts.flatten) ∧
    joinPairs (joinPairs parts.flatten) = joinPairs parts.flatten ∧
    (∀ t, units t = parts.flatMap units → Joined t → t = joinPairs parts.flatten) ∧
    ∀ us : List (Fin 0x10000),
      (∃ (src : Source) (literal : Node),
        List.Forall₂ (SpellingPart src) literal.namedChildren (us.map Fin.val)) ∧
      ∀ src literal, List.Forall₂ (SpellingPart src) literal.namedChildren (us.map Fin.val) →
        ∃ t, stringValue src literal = .ok t ∧ units t = us.map Fin.val ∧ Joined t := by
  have hunits : units (joinPairs parts.flatten) = parts.flatMap units := by
    rw [units_joinPairs, units_flatten]
  have hjoined := joined_joinPairs parts.flatten
  refine ⟨fun src literal h => stringValue_of_parts h, hunits, hjoined, ?_, fun t ht htj => ?_,
    fun us => ⟨exists_spellingParts us, fun src literal h => stringValue_of_spellingParts h⟩⟩
  · exact (joined_joinPairs _).eq_of_units_eq hjoined (units_joinPairs _)
  · exact htj.eq_of_units_eq hjoined (ht.trans hunits.symm)

end DocSignature
