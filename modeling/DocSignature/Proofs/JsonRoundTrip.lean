import DocSignature.Proofs.JsonScalar

/-!
# Reading back values

A value is `Json.Canonical` if its texts are joined and its floating point numbers canonical. The
reader finds such a value again from its text in ASCII (`Json.value_write`, `Json.read_ascii`).
That text is in ASCII for every value (`Json.toNat_lt_of_mem_write`).
-/

namespace DocSignature.Json

/-- Texts are joined and floating point numbers canonical, wherever they stand. -/
inductive Canonical : Json → Prop
  | null : Canonical .null
  | bool (b : Bool) : Canonical (.bool b)
  | int (n : ℤ) : Canonical (.int n)
  | float {x : Binary64} (h : x.Canonical) : Canonical (.float x)
  | str {t : Text} (h : Text.Joined t) : Canonical (.str t)
  | arr {l : List Json} (h : ∀ j ∈ l, Canonical j) : Canonical (.arr l)
  | obj {l : List (Text × Json)} (hkeys : ∀ m ∈ l, Text.Joined m.1) (h : ∀ m ∈ l, Canonical m.2) :
      Canonical (.obj l)

/-! ## Steps -/

theorem skipGap_cons {c : Char} (h : isGap c = false) (s : List Char) :
    skipGap (c :: s) = c :: s := by
  simp [skipGap, h]

/-- No value begins with white space or with what closes an array. -/
theorem write_head (j : Json) :
    ∃ c s, j.write asciiPoint = c :: s ∧ isGap c = false ∧ c ≠ ']' := by
  have table : ∀ c ∈ numberHeads, isGap c = false ∧ c ≠ ']' :=
    List.all_iff_forall_prop.mp (by decide)
  cases j with
  | null => exact ⟨'n', _, rfl, by decide⟩
  | bool b => cases b <;> exact ⟨_, _, rfl, by decide⟩
  | int n =>
    obtain ⟨c, s, hs, hc⟩ := intText_head n
    exact ⟨c, s, hs, table c hc⟩
  | float x =>
    obtain ⟨c, s, hs, hc⟩ := floatText_head x
    exact ⟨c, s, hs, table c hc⟩
  | str t => exact ⟨'"', _, rfl, by decide⟩
  | arr l => exact ⟨'[', _, rfl, by decide⟩
  | obj l => exact ⟨'\x7b', _, rfl, by decide⟩

theorem skipGap_write (j : Json) (rest : List Char) :
    skipGap (j.write asciiPoint ++ rest) = j.write asciiPoint ++ rest := by
  obtain ⟨c, s, hs, hgap, -⟩ := j.write_head
  rw [hs]
  exact skipGap_cons hgap _

theorem value_eq_scalar (n : ℕ) {c : Char} (harr : c ≠ '[') (hobj : c ≠ '\x7b') (s : List Char) :
    value (n + 1) (c :: s) = scalar (c :: s) := by
  simp [value, harr, hobj]

theorem value_number (n : ℕ) {c : Char} (hc : c ∈ numberHeads) (s : List Char) :
    value (n + 1) (c :: s) = scalar (c :: s) := by
  have table : ∀ c ∈ numberHeads, c ≠ '[' ∧ c ≠ '\x7b' :=
    List.all_iff_forall_prop.mp (by decide)
  exact value_eq_scalar n (table c hc).1 (table c hc).2 s

/-- The value is found again from its text, whatever may follow it. -/
def ReadsBack (j : Json) : Prop := ∀ (n : ℕ) (rest : List Char), (j.write asciiPoint).length ≤ n →
  Delimited rest → value n (j.write asciiPoint ++ rest) = .ok (j, rest)

theorem delimited_cons {c : Char} (h : c ∈ [',', ']', '\x7d']) (s : List Char) :
    Delimited (c :: s) := by
  intro d hd
  obtain rfl : c = d := by simpa using hd
  exact h

theorem writeItems_cons (j : Json) (l : List Json) :
    ∃ s, writeItems asciiPoint (j :: l) = j.write asciiPoint ++ s := by
  cases l with
  | nil => exact ⟨[], (List.append_nil _).symm⟩
  | cons k l => exact ⟨_, rfl⟩

theorem skipGap_writeItems (j : Json) (l : List Json) (rest : List Char) :
    skipGap (writeItems asciiPoint (j :: l) ++ rest) = writeItems asciiPoint (j :: l) ++ rest := by
  obtain ⟨s, hs⟩ := writeItems_cons j l
  rw [hs, List.append_assoc, skipGap_write]

/-- Items that are each read back are read back together. -/
theorem items_writeItems : ∀ {l : List Json}, l ≠ [] → (∀ j ∈ l, ReadsBack j) →
    ∀ (n : ℕ) (rest : List Char), (writeItems asciiPoint l).length + 1 ≤ n →
      items n (writeItems asciiPoint l ++ ']' :: rest) = .ok (l, rest)
  | [], hne, _, _, _, _ => absurd rfl hne
  | _, _, _, 0, _, hn => absurd hn (by omega)
  | [j], _, h, n + 1, rest, hn => by
    rw [writeItems] at hn ⊢
    rw [items, h j (by simp) n _ (by omega) (delimited_cons (by decide) _)]
    rfl
  | j :: k :: l, _, h, n + 1, rest, hn => by
    have htext : writeItems asciiPoint (j :: k :: l) =
        j.write asciiPoint ++ ',' :: writeItems asciiPoint (k :: l) := rfl
    have hlength := congrArg List.length htext
    rw [List.length_append, List.length_cons] at hlength
    have hrest := items_writeItems (List.cons_ne_nil k l)
      (fun m hm => h m (List.mem_cons_of_mem j hm)) n rest (by omega)
    rw [htext, List.append_assoc, List.cons_append, items,
      h j (by simp) n _ (by omega) (delimited_cons (by decide) _)]
    change (items n (skipGap (writeItems asciiPoint (k :: l) ++ ']' :: rest))).map _ = _
    rw [skipGap_writeItems, hrest]
    rfl

theorem writeMembers_cons (m : Text × Json) (l : List (Text × Json)) :
    ∃ s, writeMembers asciiPoint (m :: l) = '"' :: s := by
  cases l with
  | nil => exact ⟨_, rfl⟩
  | cons k l => exact ⟨_, rfl⟩

theorem skipGap_writeMembers (m : Text × Json) (l : List (Text × Json)) (rest : List Char) :
    skipGap (writeMembers asciiPoint (m :: l) ++ rest) =
      writeMembers asciiPoint (m :: l) ++ rest := by
  obtain ⟨s, hs⟩ := writeMembers_cons m l
  rw [hs]
  exact skipGap_cons (by decide) _

theorem members_last {key : Text} (hkey : Text.Joined key) {j : Json} (hj : ReadsBack j) {n : ℕ}
    (hn : (j.write asciiPoint).length ≤ n) (rest : List Char) :
    members (n + 1) (quoted asciiPoint key ++ ':' :: (j.write asciiPoint ++ '\x7d' :: rest)) =
      .ok ([(key, j)], rest) := by
  have hvalue := hj n ('\x7d' :: rest) hn (delimited_cons (by decide) _)
  have hcolon (s : List Char) : skipGap (':' :: s) = ':' :: s := skipGap_cons (by decide) s
  have hclose (s : List Char) : skipGap ('\x7d' :: s) = '\x7d' :: s := skipGap_cons (by decide) s
  rw [members, string_quoted hkey]
  simp only [hcolon, skipGap_write, hvalue, hclose]

theorem members_more {key : Text} (hkey : Text.Joined key) {j : Json} (hj : ReadsBack j) {n : ℕ}
    (hn : (j.write asciiPoint).length ≤ n) (rest : List Char) :
    members (n + 1) (quoted asciiPoint key ++ ':' :: (j.write asciiPoint ++ ',' :: rest)) =
      (members n (skipGap rest)).map fun p => ((key, j) :: p.1, p.2) := by
  have hvalue := hj n (',' :: rest) hn (delimited_cons (by decide) _)
  have hcolon (s : List Char) : skipGap (':' :: s) = ':' :: s := skipGap_cons (by decide) s
  have hcomma (s : List Char) : skipGap (',' :: s) = ',' :: s := skipGap_cons (by decide) s
  rw [members, string_quoted hkey]
  simp only [hcolon, skipGap_write, hvalue, hcomma]

/-- Members whose values are each read back are read back together. -/
theorem members_writeMembers : ∀ {l : List (Text × Json)}, l ≠ [] → (∀ m ∈ l, Text.Joined m.1) →
    (∀ m ∈ l, ReadsBack m.2) → ∀ (n : ℕ) (rest : List Char),
      (writeMembers asciiPoint l).length + 1 ≤ n →
        members n (writeMembers asciiPoint l ++ '\x7d' :: rest) = .ok (l, rest)
  | [], hne, _, _, _, _, _ => absurd rfl hne
  | _, _, _, _, 0, _, hn => absurd hn (by omega)
  | [(key, j)], _, hkeys, h, n + 1, rest, hn => by
    have htext : writeMembers asciiPoint [(key, j)] =
        quoted asciiPoint key ++ ':' :: j.write asciiPoint := rfl
    have hlength := congrArg List.length htext
    rw [List.length_append, List.length_cons] at hlength
    have hkey : Text.Joined key := hkeys (key, j) (by simp)
    have hj : ReadsBack j := h (key, j) (by simp)
    rw [htext, List.append_assoc, List.cons_append, members_last hkey hj (by omega)]
  | (key, j) :: k :: l, _, hkeys, h, n + 1, rest, hn => by
    have htext : writeMembers asciiPoint ((key, j) :: k :: l) = quoted asciiPoint key ++
        ':' :: (j.write asciiPoint ++ ',' :: writeMembers asciiPoint (k :: l)) := by
      rw [writeMembers]
      · simp
      · simp
    have hlength := congrArg List.length htext
    rw [List.length_append, List.length_cons, List.length_append, List.length_cons] at hlength
    have hrest := members_writeMembers (List.cons_ne_nil k l)
      (fun m hm => hkeys m (List.mem_cons_of_mem _ hm))
      (fun m hm => h m (List.mem_cons_of_mem _ hm)) n rest (by omega)
    have hkey : Text.Joined key := hkeys (key, j) (by simp)
    have hj : ReadsBack j := h (key, j) (by simp)
    rw [htext, List.append_assoc, List.cons_append, List.append_assoc, List.cons_append,
      members_more hkey hj (by omega), skipGap_writeMembers, hrest]
    rfl

/-! ## Values -/

/-- No text is empty, so the bound is never nothing. -/
theorem readsBack_of_succ {j : Json} (h : ∀ (n : ℕ) (rest : List Char),
    (j.write asciiPoint).length ≤ n + 1 → Delimited rest →
      value (n + 1) (j.write asciiPoint ++ rest) = .ok (j, rest)) : ReadsBack j := by
  intro n rest hn hrest
  cases n with
  | zero =>
    obtain ⟨c, s, hs, -⟩ := j.write_head
    rw [hs] at hn
    exact absurd hn (by simp)
  | succ n => exact h n rest hn hrest

/-- A number is read back as a value if it is as a scalar. -/
theorem readsBack_of_number {j : Json}
    (hhead : ∃ c s, j.write asciiPoint = c :: s ∧ c ∈ numberHeads)
    (h : ∀ rest, Delimited rest → scalar (j.write asciiPoint ++ rest) = .ok (j, rest)) :
    ReadsBack j := by
  refine readsBack_of_succ fun n rest _ hrest => ?_
  obtain ⟨c, s, hs, hc⟩ := hhead
  have hread := h rest hrest
  rw [hs] at hread ⊢
  exact (value_number n hc _).trans hread

theorem readsBack_str {t : Text} (h : Text.Joined t) : ReadsBack (.str t) := by
  refine readsBack_of_succ fun n rest _ _ => ?_
  have hquoted : quoted asciiPoint t ++ rest = '"' :: (t.flatMap asciiPoint ++ '"' :: rest) := by
    simp [quoted]
  have hread := string_quoted h rest
  rw [hquoted] at hread
  rw [write, hquoted, value_eq_scalar n (by decide) (by decide), scalar, hread]
  rfl

theorem readsBack_arr {l : List Json} (h : ∀ j ∈ l, ReadsBack j) : ReadsBack (.arr l) := by
  refine readsBack_of_succ fun n rest hn _ => ?_
  cases l with
  | nil => rfl
  | cons j l =>
    have htext : write asciiPoint (.arr (j :: l)) ++ rest =
        '[' :: (writeItems asciiPoint (j :: l) ++ ']' :: rest) := by
      simp [write]
    have hlength : (writeItems asciiPoint (j :: l)).length + 1 ≤ n := by
      simp only [write, List.cons_append, List.length_cons, List.length_append,
        List.length_nil] at hn
      omega
    obtain ⟨s, hs⟩ := writeItems_cons j l
    obtain ⟨c, t, hc, -, hclose⟩ := j.write_head
    rw [htext, value, skipGap_writeItems]
    split
    · next r hr =>
      rw [hs, hc] at hr
      exact absurd (List.cons.inj hr).1 hclose
    · rw [items_writeItems (by simp) h n rest hlength]
      rfl

theorem readsBack_obj {l : List (Text × Json)} (hkeys : ∀ m ∈ l, Text.Joined m.1)
    (h : ∀ m ∈ l, ReadsBack m.2) : ReadsBack (.obj l) := by
  refine readsBack_of_succ fun n rest hn _ => ?_
  cases l with
  | nil => rfl
  | cons m l =>
    have htext : write asciiPoint (.obj (m :: l)) ++ rest =
        '\x7b' :: (writeMembers asciiPoint (m :: l) ++ '\x7d' :: rest) := by
      simp [write]
    have hlength : (writeMembers asciiPoint (m :: l)).length + 1 ≤ n := by
      simp only [write, List.cons_append, List.length_cons, List.length_append,
        List.length_nil] at hn
      omega
    obtain ⟨s, hs⟩ := writeMembers_cons m l
    rw [htext, value, skipGap_writeMembers]
    split
    · next r hr =>
      rw [hs] at hr
      exact absurd (List.cons.inj hr).1 (by decide)
    · rw [members_writeMembers (by simp) hkeys h n rest hlength]
      rfl

/-- The reader finds a canonical value again. -/
theorem value_write {j : Json} (h : j.Canonical) : ReadsBack j := by
  induction h with
  | null => exact readsBack_of_succ fun _ _ _ _ => rfl
  | bool b => exact readsBack_of_succ fun _ _ _ _ => by cases b <;> rfl
  | int n => exact readsBack_of_number (intText_head n) fun _ => scalar_intText n
  | @float x hx => exact readsBack_of_number (floatText_head x) fun _ => scalar_floatText hx
  | str ht => exact readsBack_str ht
  | arr _ ih => exact readsBack_arr ih
  | obj hkeys _ ih => exact readsBack_obj hkeys ih

/-! ## ASCII -/

theorem toNat_lt_of_mem_hexDigits : ∀ {width n : ℕ}, ∀ c ∈ hexDigits width n, c.toNat < 128
  | 0, _, _, hc => by simp [hexDigits] at hc
  | width + 1, n, c, hc => by
    have table : ∀ n < 16, (hexDigit n).toNat < 128 := by decide
    rw [hexDigits, List.mem_append, List.mem_singleton] at hc
    rcases hc with hc | rfl
    · exact toNat_lt_of_mem_hexDigits c hc
    · exact table _ (Nat.mod_lt n (by decide))

theorem toNat_lt_of_mem_escapeUnit {n : ℕ} : ∀ c ∈ escapeUnit n, c.toNat < 128 := by
  rw [escapeUnit, List.forall_mem_cons, List.forall_mem_cons]
  exact ⟨by decide, by decide, toNat_lt_of_mem_hexDigits⟩

theorem toNat_lt_of_escapeLetter? {p : CodePoint} {c : Char} (h : escapeLetter? p = some c) :
    c.toNat < 128 := by
  unfold escapeLetter? at h
  split_ifs at h <;> rw [← Option.some.inj h] <;> decide

theorem toNat_lt_of_mem_asciiPoint (p : CodePoint) : ∀ c ∈ asciiPoint p, c.toNat < 128 := by
  unfold asciiPoint
  split
  · next letter hletter =>
    rw [List.forall_mem_cons, List.forall_mem_singleton]
    exact ⟨by decide, toNat_lt_of_escapeLetter? hletter⟩
  · split
    · next hprintable =>
      have table : ∀ n < 0x7F, (Char.ofNat n).toNat < 128 := by decide
      simp only [Bool.and_eq_true, decide_eq_true_eq] at hprintable
      rw [List.forall_mem_singleton]
      exact table _ (by omega)
    · intro c hc
      obtain ⟨n, -, hc⟩ := List.mem_flatMap.mp hc
      exact toNat_lt_of_mem_escapeUnit c hc

theorem toNat_lt_of_mem_quoted (t : Text) : ∀ c ∈ quoted asciiPoint t, c.toNat < 128 := by
  rw [quoted, List.cons_append, List.forall_mem_cons, List.forall_mem_append,
    List.forall_mem_singleton]
  refine ⟨by decide, fun c hc => ?_, by decide⟩
  obtain ⟨p, -, hc⟩ := List.mem_flatMap.mp hc
  exact toNat_lt_of_mem_asciiPoint p c hc

theorem toNat_lt_of_mem_literalChars : ∀ c ∈ DecimalLiteral.literalChars, c.toNat < 128 :=
  List.all_iff_forall_prop.mp (by decide)

theorem toNat_lt_of_mem_signText (negative : Bool) : ∀ c ∈ signText negative, c.toNat < 128 := by
  cases negative <;> exact List.all_iff_forall_prop.mp (by decide)

theorem toNat_lt_of_mem_intText (n : ℤ) : ∀ c ∈ intText n, c.toNat < 128 := by
  rw [intText_eq, List.forall_mem_append]
  refine ⟨toNat_lt_of_mem_signText _, fun c hc => toNat_lt_of_mem_literalChars c ?_⟩
  exact DecimalLiteral.mem_literalChars_of_isDigit (Decimal.isDigit_of_mem_decimal _ c hc)

theorem toNat_lt_of_mem_floatText (x : Binary64) : ∀ c ∈ floatText x, c.toNat < 128 := by
  match x with
  | .nan => exact List.all_iff_forall_prop.mp (by decide)
  | .infinity true => exact List.all_iff_forall_prop.mp (by decide)
  | .infinity false => exact List.all_iff_forall_prop.mp (by decide)
  | .finite negative size =>
    obtain ⟨l, htext, -⟩ := floatText_finite negative size
    rw [htext, List.forall_mem_append]
    refine ⟨toNat_lt_of_mem_signText _, fun c hc => toNat_lt_of_mem_literalChars c ?_⟩
    exact l.mem_literalChars c hc

mutual

/-- Every value is written in ASCII. -/
theorem toNat_lt_of_mem_write : ∀ (j : Json), ∀ c ∈ j.write asciiPoint, c.toNat < 128
  | .null => List.all_iff_forall_prop.mp (by decide)
  | .bool true => List.all_iff_forall_prop.mp (by decide)
  | .bool false => List.all_iff_forall_prop.mp (by decide)
  | .int n => toNat_lt_of_mem_intText n
  | .float x => toNat_lt_of_mem_floatText x
  | .str t => toNat_lt_of_mem_quoted t
  | .arr l => by
    rw [write, List.cons_append, List.forall_mem_cons, List.forall_mem_append,
      List.forall_mem_singleton]
    exact ⟨by decide, toNat_lt_of_mem_writeItems l, by decide⟩
  | .obj l => by
    rw [write, List.cons_append, List.forall_mem_cons, List.forall_mem_append,
      List.forall_mem_singleton]
    exact ⟨by decide, toNat_lt_of_mem_writeMembers l, by decide⟩

theorem toNat_lt_of_mem_writeItems :
    ∀ (l : List Json), ∀ c ∈ writeItems asciiPoint l, c.toNat < 128
  | [] => by simp [writeItems]
  | [j] => toNat_lt_of_mem_write j
  | j :: k :: l => by
    rw [writeItems, List.forall_mem_append, List.forall_mem_cons]
    · exact ⟨toNat_lt_of_mem_write j, by decide, toNat_lt_of_mem_writeItems (k :: l)⟩
    · simp

theorem toNat_lt_of_mem_writeMembers :
    ∀ (l : List (Text × Json)), ∀ c ∈ writeMembers asciiPoint l, c.toNat < 128
  | [] => by simp [writeMembers]
  | [(key, j)] => by
    rw [writeMembers, List.forall_mem_append, List.forall_mem_cons]
    exact ⟨toNat_lt_of_mem_quoted key, by decide, toNat_lt_of_mem_write j⟩
  | (key, j) :: k :: l => by
    rw [writeMembers, List.append_assoc, List.forall_mem_append, List.cons_append,
      List.forall_mem_cons, List.forall_mem_append, List.forall_mem_cons]
    · exact ⟨toNat_lt_of_mem_quoted key, by decide, toNat_lt_of_mem_write j, by decide,
        toNat_lt_of_mem_writeMembers (k :: l)⟩
    · simp

end

/-! ## Whole texts -/

/-- Reading a whole text gives back the canonical value that was written. -/
theorem read_ascii {j : Json} (h : j.Canonical) : read j.ascii.toList = .ok j := by
  have hvalue : value (2 * (j.write asciiPoint).length + 2) (j.write asciiPoint) = .ok (j, []) := by
    have := value_write h (2 * (j.write asciiPoint).length + 2) [] (by omega) (by simp [Delimited])
    rwa [List.append_nil] at this
  have hgap : skipGap (j.write asciiPoint) = j.write asciiPoint := by
    have := skipGap_write j []
    rwa [List.append_nil] at this
  have hmark : dropMark (j.write asciiPoint) = j.write asciiPoint := by
    obtain ⟨c, s, hs, -⟩ := j.write_head
    have hc : c.toNat < 128 := toNat_lt_of_mem_write j c (by simp [hs])
    rw [hs, dropMark]
    rintro t ⟨rfl, -⟩
    exact absurd hc (by decide)
  rw [ascii, String.toList_ofList, read, hmark, document, hgap, hvalue]
  rfl

end DocSignature.Json
