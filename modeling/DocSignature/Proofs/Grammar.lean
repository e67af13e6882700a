import DocSignature.Proofs.DecimalLiteral
import DocSignature.Proofs.Position
import DocSignature.Simplify

/-!
# Trees that follow the grammar

`EscapeText` gives the shapes of escapes in string literals, and `NumberText` those of number
literals. A tree is `Grammatical` over a source if its names are not empty, its parentheses hold
something, and its escapes and numbers have these shapes. It is `Tokenized` if its escapes need
only be what a scanner takes for one (`EscapeToken`).

An escape of such a shape has a meaning unless its code in braces is past the last code point
(`EscapeText.meaning`, `BeyondText.meaning`), and so has an escape token (`EscapeToken.meaning`).
-/

namespace DocSignature

/-! ## Texts of literals -/

/-- The text of an escape : a backslash, and what the grammar lets stand behind it. -/
inductive EscapeText : List Char → Prop
  /-- One character that begins none of the longer forms. -/
  | single {c : Char} (hc : c ∉ ['x', 'u', '0', '1', '2', '3', '4', '5', '6', '7']) :
      EscapeText ['\\', c]
  /-- One to three digits in base eight. -/
  | octal {digits : List Char} (hdigits : Numeral.AllIn 8 digits) (hne : digits ≠ [])
      (hlength : digits.length ≤ 3) : EscapeText ('\\' :: digits)
  /-- Two hexadecimal digits. -/
  | byte {digits : List Char} (hdigits : Numeral.AllIn 16 digits) (hlength : digits.length = 2) :
      EscapeText ('\\' :: 'x' :: digits)
  /-- Four hexadecimal digits. -/
  | unit {digits : List Char} (hdigits : Numeral.AllIn 16 digits) (hlength : digits.length = 4) :
      EscapeText ('\\' :: 'u' :: digits)
  /-- Any number of hexadecimal digits in braces. -/
  | braces {digits : List Char} (hdigits : Numeral.AllIn 16 digits) (hne : digits ≠ []) :
      EscapeText ('\\' :: 'u' :: '{' :: (digits ++ ['}']))
  /-- A line end of two characters. The others are single ones. -/
  | lineEnd : EscapeText ['\\', '\r', '\n']

/-- The text of an escape whose code in braces is past the last code point. -/
def BeyondText (s : List Char) : Prop :=
  ∃ digits, s = '\\' :: 'u' :: '{' :: (digits ++ ['}']) ∧ Numeral.AllIn 16 digits ∧
    digits ≠ [] ∧ 0x10FFFF < Numeral.valueIn 16 digits

/-- A number literal without separators. -/
inductive NumberLiteral where
  /-- Digits behind a mark such as `0x`. -/
  | marked (mark : Char) (base : Nat) (digits : List Char)
      (hmark : Numeral.markedBase? mark = some base) (hdigits : Numeral.AllIn base digits)
      (hne : digits ≠ [])
  /-- A decimal literal. Digits behind a zero may mean another base. -/
  | decimal (l : DecimalLiteral)

/-- The literal as it is written. -/
def NumberLiteral.text : NumberLiteral → List Char
  | .marked mark _ digits .. => '0' :: mark :: digits
  | .decimal l => l.text

/-- The text of a number : a literal, perhaps with separators in it and with an `n` behind it. -/
def NumberText (s : List Char) : Prop :=
  ∃ l : NumberLiteral, s.filter (· != '_') = l.text ∨ s.filter (· != '_') = l.text ++ ['n']

/-- The text of an escape token : an escape, or a backslash with a carriage return or a question
mark that takes a line end along. -/
inductive EscapeToken : List Char → Prop
  | escape {s : List Char} (h : EscapeText s) : EscapeToken s
  | lineEnd {c d : Char} (hc : c ∈ ['\r', '?']) (hd : d ∈ ['\n', '\u2028', '\u2029']) :
      EscapeToken ['\\', c, d]

/-! ## Trees -/

namespace Node

/-- A node stands somewhere in a tree. -/
def Contains (root n : Node) : Prop := ∃ p, root.nodeAt? p = some n

namespace Contains

variable {root n m : Node}

theorem self (root : Node) : root.Contains root := ⟨[], rfl⟩

theorem of_mem_children (h : root.Contains n) (hm : m ∈ n.children) : root.Contains m := by
  obtain ⟨p, hp⟩ := h
  exact nodeAt?_of_mem_children hp hm

theorem trans (h : root.Contains n) (hm : n.Contains m) : root.Contains m := by
  obtain ⟨p, hp⟩ := h
  obtain ⟨q, hq⟩ := hm
  exact ⟨p ++ q, by rw [nodeAt?_append, hp, Option.bind_some, hq]⟩

theorem child? (h : root.Contains n) {field : String} (hm : n.child? field = some m) :
    root.Contains m :=
  h.of_mem_children (List.mem_of_find?_eq_some hm)

theorem namedChildren (h : root.Contains n) (hm : m ∈ n.namedChildren) : root.Contains m :=
  h.of_mem_children (List.mem_filter.mp hm).1

theorem members (h : root.Contains n) (hm : m ∈ n.members) : root.Contains m :=
  h.namedChildren (List.mem_filter.mp hm).1

end Contains

theorem contains_iff {root n : Node} :
    root.Contains n ↔ n = root ∨ ∃ c ∈ root.children, c.Contains n := by
  constructor
  · rintro ⟨p, hp⟩
    cases p with
    | nil => exact Or.inl (by simpa using hp.symm)
    | cons i p =>
      obtain ⟨c, hc, hp⟩ := Option.bind_eq_some_iff.mp hp
      exact Or.inr ⟨c, List.mem_of_getElem? hc, p, hp⟩
  · rintro (rfl | ⟨c, hc, hn⟩)
    · exact Contains.self n
    · exact ((Contains.self root).of_mem_children hc).trans hn

/-- What holds in a whole tree holds of its root and in each of its children. -/
theorem forall_contains_iff {root : Node} {P : Node → Prop} :
    (∀ n, root.Contains n → P n) ↔ P root ∧ ∀ c ∈ root.children, ∀ n, c.Contains n → P n := by
  constructor
  · intro h
    exact ⟨h root (Contains.self root),
      fun c hc n hn => h n (contains_iff.mpr (Or.inr ⟨c, hc, hn⟩))⟩
  · rintro ⟨hroot, hchildren⟩ n hn
    rcases contains_iff.mp hn with rfl | ⟨c, hc, hn⟩
    · exact hroot
    · exact hchildren c hc n hn

theorem field_of_child? {n m : Node} {field : String} (h : n.child? field = some m) :
    m.field = some field := by
  simpa using List.find?_some h

end Node

/-- A tree follows the grammar, as far as its names, parentheses and literals go. -/
structure Grammatical (src : Source) (root : Node) : Prop where
  /-- Plain names, and what fills the fields of names, are not empty. -/
  name : ∀ n, root.Contains n →
    n.isName ∨ n.field = some "name" ∨ n.field = some "property" → n.text src ≠ ""
  /-- Parentheses hold something. -/
  parentheses : ∀ n, root.Contains n → n.kind = "parenthesized_expression" → n.members ≠ []
  /-- Escapes have one of the shapes. -/
  escape : ∀ n, root.Contains n → n.kind = "escape_sequence" → EscapeText (n.text src).toList
  /-- Numbers are number literals. -/
  number : ∀ n, root.Contains n → n.kind = "number" → NumberText (n.text src).toList

/-- A tree is made of the tokens of the grammar. An escape token may take a line end along, so not
every such tree is `Grammatical`. -/
structure Tokenized (src : Source) (root : Node) : Prop where
  /-- Plain names, and what fills the fields of names, are not empty. -/
  name : ∀ n, root.Contains n →
    n.isName ∨ n.field = some "name" ∨ n.field = some "property" → n.text src ≠ ""
  /-- Parentheses hold something. -/
  parentheses : ∀ n, root.Contains n → n.kind = "parenthesized_expression" → n.members ≠ []
  /-- Escapes are escape tokens. -/
  escape : ∀ n, root.Contains n → n.kind = "escape_sequence" → EscapeToken (n.text src).toList
  /-- Numbers are number literals. -/
  number : ∀ n, root.Contains n → n.kind = "number" → NumberText (n.text src).toList

theorem Grammatical.tokenized {src : Source} {root : Node} (h : Grammatical src root) :
    Tokenized src root where
  name := h.name
  parentheses := h.parentheses
  escape n hn kind := .escape (h.escape n hn kind)
  number := h.number

namespace Grammatical

variable {src : Source} {n : Node}

/-- A tree follows the grammar if its root does and the trees below it do. -/
theorem of_children
    (name : n.isName ∨ n.field = some "name" ∨ n.field = some "property" → n.text src ≠ "")
    (parentheses : n.kind = "parenthesized_expression" → n.members ≠ [])
    (escape : n.kind = "escape_sequence" → EscapeText (n.text src).toList)
    (number : n.kind = "number" → NumberText (n.text src).toList)
    (children : ∀ c ∈ n.children, Grammatical src c) : Grammatical src n where
  name := Node.forall_contains_iff.mpr ⟨name, fun c hc => (children c hc).name⟩
  parentheses := Node.forall_contains_iff.mpr ⟨parentheses, fun c hc => (children c hc).parentheses⟩
  escape := Node.forall_contains_iff.mpr ⟨escape, fun c hc => (children c hc).escape⟩
  number := Node.forall_contains_iff.mpr ⟨number, fun c hc => (children c hc).number⟩

/-- The shapes concern only parentheses, escapes and numbers. -/
theorem of_plain (text : n.text src ≠ "")
    (kind : n.kind ∉ ["parenthesized_expression", "escape_sequence", "number"])
    (children : ∀ c ∈ n.children, Grammatical src c) : Grammatical src n := by
  simp only [List.mem_cons, List.not_mem_nil, or_false, not_or] at kind
  exact of_children (fun _ => text) (fun h => absurd h kind.1) (fun h => absurd h kind.2.1)
    (fun h => absurd h kind.2.2) children

end Grammatical

/-! ## The meaning of an escape -/

/-- The letters that stand for a control character, with its code. -/
def controlCodes : List (Char × ℕ) :=
  [('n', 0x0A), ('t', 0x09), ('r', 0x0D), ('b', 0x08), ('f', 0x0C), ('v', 0x0B)]

namespace Escape

theorem ofCode_eq {n : Nat} (h : n < 0x110000) : ofCode n = .ok [⟨n, h⟩] := by
  have hp : CodePoint.ofNat? n = some ⟨n, h⟩ := dif_pos h
  simp only [ofCode, Int.toNat_natCast, hp]
  exact if_neg (by omega)

/-- Behind a backslash, all but the codes in base sixteen are looked up in order. -/
theorem meaning_cons {c : Char} (hu : c ≠ 'u') (hx : c ≠ 'x') (s : List Char) :
    meaning (c :: s) =
      match control? (c :: s) with
      | some k => .ok [CodePoint.ofChar k]
      | none =>
        match octal? (c :: s) with
        | some n => ofCode n
        | none => .ok (ofOther (c :: s)) := by
  unfold meaning
  cases control? (c :: s) with
  | some k => rfl
  | none =>
    dsimp only
    split
    · next h => exact absurd (List.cons.inj h).1 hu
    · next h => exact absurd (List.cons.inj h).1 hu
    · next h => exact absurd (List.cons.inj h).1 hx
    · rfl

theorem octal?_eq {digits : List Char} (h : Numeral.AllIn 8 digits) (hne : digits ≠ []) :
    octal? digits = some (Numeral.valueIn 8 digits) := by
  rw [octal?, if_pos (List.all_eq_true.mpr h), Numeral.whole?_eq h hne]

theorem octal?_single {c : Char} (h : c ∉ ['x', 'u', '0', '1', '2', '3', '4', '5', '6', '7']) :
    octal? [c] = none := by
  have table : ∀ d ∈ Numeral.digitChars, (Numeral.digitIn? 8 d).isSome →
      d ∈ ['x', 'u', '0', '1', '2', '3', '4', '5', '6', '7'] :=
    List.all_iff_forall_prop.mp (by decide)
  rw [octal?, if_neg]
  intro hall
  have hc : (Numeral.digitIn? 8 c).isSome := by simpa using hall
  exact h (table c (Numeral.mem_digitChars hc) hc)

theorem ofHex_eq {digits : List Char} (h : Numeral.AllIn 16 digits) (hne : digits ≠ []) :
    ofHex digits = ofCode (Numeral.valueIn 16 digits) := by
  rw [ofHex, Numeral.hexadecimal?_eq h hne]

theorem ofBraces_eq {digits : List Char} (h : Numeral.AllIn 16 digits) (hne : digits ≠ []) :
    ofBraces digits =
      if 0x10FFFF < (Numeral.valueIn 16 digits : Int) then .error .beyond
      else ofCode (Numeral.valueIn 16 digits) := by
  rw [ofBraces, Numeral.hexadecimal?_eq h hne]

theorem meaning_hex {mark : Char} (hmark : mark = 'x' ∨ mark = 'u') {digits : List Char}
    (h : Numeral.AllIn 16 digits) (hne : digits ≠ []) :
    meaning (mark :: digits) = ofCode (Numeral.valueIn 16 digits) := by
  obtain ⟨d, s, rfl⟩ := List.exists_cons_of_ne_nil hne
  have hd : d ≠ '{' := by
    rintro rfl
    have := Numeral.mem_digitChars (h '{' List.mem_cons_self)
    revert this
    decide
  rw [← ofHex_eq h hne]
  rcases hmark with rfl | rfl <;> simp [meaning, control?, hd]

/-- Hexadecimal digits behind a letter spell the code point with their number. -/
theorem exists_meaning_hex {mark : Char} (hmark : mark = 'x' ∨ mark = 'u') {digits : List Char}
    (h : Numeral.AllIn 16 digits) (hne : digits ≠ []) (hlength : digits.length ≤ 4) :
    ∃ p : CodePoint, meaning (mark :: digits) = .ok [p] ∧ p.val = Numeral.positional 16 digits ∧
      p.val < 0x10000 := by
  have hlt : Numeral.valueIn 16 digits < 0x10000 := by
    calc Numeral.valueIn 16 digits < 16 ^ digits.length := Numeral.valueIn_lt h
      _ ≤ 16 ^ 4 := Nat.pow_le_pow_right (by decide) hlength
  refine ⟨⟨_, hlt.trans (by decide)⟩, (meaning_hex hmark h hne).trans (ofCode_eq _), ?_, hlt⟩
  exact Numeral.valueIn_eq_positional (le_refl 16) h

/-- What the table of letters holds : the control characters, and the digit zero. -/
theorem control?_eq_some {body : List Char} {k : Char} (h : control? body = some k) :
    body = ['0'] ∧ k.toNat = 0 ∨ ∃ c, body = [c] ∧ (c, k.toNat) ∈ controlCodes := by
  unfold control? at h
  split at h
  case h_7 => exact Or.inl ⟨rfl, by rw [← Option.some.inj h]; rfl⟩
  case h_8 => cases h
  all_goals exact Or.inr ⟨_, rfl, by rw [← Option.some.inj h]; decide⟩

/-- Up to three digits in base eight spell the code point with their number. -/
theorem exists_meaning_octal {digits : List Char} (h : Numeral.AllIn 8 digits) (hne : digits ≠ [])
    (hlength : digits.length ≤ 3) :
    ∃ p : CodePoint, meaning digits = .ok [p] ∧ p.val = Numeral.positional 8 digits ∧
      p.val < 0x10000 := by
  have hlt : Numeral.valueIn 8 digits < 0x10000 := by
    calc Numeral.valueIn 8 digits < 8 ^ digits.length := Numeral.valueIn_lt h
      _ ≤ 8 ^ 3 := Nat.pow_le_pow_right (by decide) hlength
      _ < 0x10000 := by decide
  obtain ⟨d, ds, rfl⟩ := List.exists_cons_of_ne_nil hne
  have hd := h d List.mem_cons_self
  have hu : d ≠ 'u' := by rintro rfl; revert hd; decide
  have hx : d ≠ 'x' := by rintro rfl; revert hd; decide
  rw [meaning_cons hu hx, octal?_eq h hne]
  cases hcontrol : control? (d :: ds) with
  | none =>
    exact ⟨_, ofCode_eq (hlt.trans (by decide)), Numeral.valueIn_eq_positional (by decide) h, hlt⟩
  | some k =>
    -- Of the letters with a meaning, only the zero is a digit.
    rcases control?_eq_some hcontrol with ⟨hzero, hk⟩ | ⟨c, hc, hk⟩
    · refine ⟨_, rfl, ?_, ?_⟩
      · rw [hzero]
        exact hk
      · change k.toNat < 0x10000
        omega
    · have table : ∀ e ∈ controlCodes, (Numeral.digitIn? 8 e.1).isSome = false :=
        List.all_iff_forall_prop.mp (by decide)
      rw [(List.cons.inj hc).1, table _ hk] at hd
      cases hd

end Escape

theorem Escape.meaning_braces {digits : List Char} (h : Numeral.AllIn 16 digits)
    (hne : digits ≠ []) : Escape.meaning ('u' :: '{' :: (digits ++ ['}'])) =
      if 0x10FFFF < (Numeral.valueIn 16 digits : Int) then .error .beyond
      else Escape.ofCode (Numeral.valueIn 16 digits) := by
  have hbraces : Escape.meaning ('u' :: '{' :: (digits ++ ['}'])) = Escape.ofBraces digits := by
    simp [Escape.meaning, Escape.control?]
  rw [hbraces, Escape.ofBraces_eq h hne]

theorem BeyondText.meaning {s : List Char} (h : BeyondText s) :
    Escape.meaning (s.drop 1) = .error .beyond := by
  obtain ⟨digits, rfl, hdigits, hne, hlt⟩ := h
  rw [List.drop_one, List.tail_cons, Escape.meaning_braces hdigits hne]
  exact if_pos (by omega)

/-- An escape of a shape of the grammar has a meaning, unless its code is past the last one. -/
theorem EscapeText.meaning {s : List Char} (h : EscapeText s) :
    (∃ t, Escape.meaning (s.drop 1) = .ok t) ∨
      Escape.meaning (s.drop 1) = .error .beyond ∧ BeyondText s := by
  cases h with
  | @single c hc =>
    have hletter : c ≠ 'u' ∧ c ≠ 'x' := by
      constructor <;> rintro rfl <;> revert hc <;> decide
    refine Or.inl ?_
    rw [List.drop_one, List.tail_cons, Escape.meaning_cons hletter.1 hletter.2,
      Escape.octal?_single hc]
    cases Escape.control? [c] <;> exact ⟨_, rfl⟩
  | @octal digits hdigits hne hlength =>
    obtain ⟨p, hp, -⟩ := Escape.exists_meaning_octal hdigits hne hlength
    exact Or.inl ⟨_, hp⟩
  | @byte digits hdigits hlength =>
    have hne : digits ≠ [] := List.ne_nil_of_length_pos (by omega)
    obtain ⟨p, hp, -⟩ := Escape.exists_meaning_hex (Or.inl rfl) hdigits hne (by omega)
    exact Or.inl ⟨_, hp⟩
  | @unit digits hdigits hlength =>
    have hne : digits ≠ [] := List.ne_nil_of_length_pos (by omega)
    obtain ⟨p, hp, -⟩ := Escape.exists_meaning_hex (Or.inr rfl) hdigits hne (by omega)
    exact Or.inl ⟨_, hp⟩
  | @braces digits hdigits hne =>
    rw [List.drop_one, List.tail_cons, Escape.meaning_braces hdigits hne]
    by_cases hlt : 0x10FFFF < (Numeral.valueIn 16 digits : Int)
    · exact Or.inr ⟨if_pos hlt, digits, rfl, hdigits, hne, by omega⟩
    · rw [if_neg hlt]
      exact Or.inl ⟨_, Escape.ofCode_eq (by omega)⟩
  | lineEnd => exact Or.inl ⟨[], rfl⟩

/-- An escape token has a meaning, unless its code is past the last one. -/
theorem EscapeToken.meaning {s : List Char} (h : EscapeToken s) :
    (∃ t, Escape.meaning (s.drop 1) = .ok t) ∨ Escape.meaning (s.drop 1) = .error .beyond := by
  cases h with
  | escape h => exact h.meaning.imp_right And.left
  | @lineEnd c d hc hd =>
    have hletter : c ≠ 'u' ∧ c ≠ 'x' := by
      constructor <;> rintro rfl <;> revert hc <;> decide
    have hdigit : (Numeral.digitIn? 8 c).isSome = false := by
      have hmark : c = '\r' ∨ c = '?' := by simpa using hc
      rcases hmark with rfl | rfl <;> decide
    have hoctal : Escape.octal? [c, d] = none := by
      simp [Escape.octal?, hdigit]
    refine Or.inl ?_
    rw [List.drop_one, List.tail_cons, Escape.meaning_cons hletter.1 hletter.2, hoctal]
    cases Escape.control? [c, d] <;> exact ⟨_, rfl⟩

end DocSignature
