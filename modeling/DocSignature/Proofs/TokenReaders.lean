import DocSignature.Proofs.Reading
import DocSignature.Proofs.TokenText

/-!
# What the readers of tokens give

The readers of marks, words and names take at least one character (`mark_takes`, `word_takes`), and
those that give a node read one (`leaf_reads`, `name_reads`). The parts of a string stand side by
side from its opening quote on, whatever gaps they hold, so they are crossed instead
(`part_crosses`, `stringPart_crosses`).
-/

namespace DocSignature.JavaScript

variable {s : List Char} {i j : Input} {n : Node} {l : List Node} {kind : String} {β : Type}
  {Q : β → Input → Prop}

/-! ## Nodes over a way -/

theorem reads_make {field : Option String} (h : Takes s i l j)
    (hsound : (Node.make kind i.next.offset j.offset field true false l).Sound s)
    (hkind : kind ≠ "comment") :
    Reads s i (Node.make kind i.next.offset j.offset field true false l) j :=
  ⟨⟨⟨h.of, h.offset_le, h.next_le, .singleton hsound le_rfl h.lt le_rfl⟩, h.lt⟩, rfl, hkind⟩

/-- A node over a way is read. -/
theorem node_reads (hkind : Plain kind) (h : Takes s i l j) :
    (Reader.node kind i.next.offset l).Gives j (Reads s i) := by
  rintro _ _ _ ⟨⟩
  exact reads_make h (sound_make_of_plain hkind h.row h.of.offset_le) hkind.ne_comment

/-- Parentheses around a node are read. -/
theorem parentheses_read (h : Takes s i [n] j) (hnamed : n.named = true)
    (hn : n.kind ≠ "comment") :
    (Reader.node "parenthesized_expression" i.next.offset [n]).Gives j (Reads s i) := by
  rintro _ _ _ ⟨⟩
  refine reads_make h (sound_make h.row h.of.offset_le (by decide) ?_ ?_ ?_) (by decide)
  · simp [hnamed, hn]
  · exact fun h => absurd h (by decide)
  · exact fun h => absurd h (by decide)

/-- A node that starts with one that was read before takes in what was read since. -/
theorem node_grows (hkind : Plain kind) (hn : Before s n i) (h : Passes s i l j) :
    (Reader.node kind n.start (n :: l)).Gives j (Grows s n.start i) := by
  rintro _ _ _ ⟨⟩
  have hle : n.stop ≤ i.next.offset := hn.le.trans (Input.offset_le_next hn.of)
  have hstop : n.stop ≤ j.offset := hn.le.trans h.offset_le
  have hrow : Row s n.start j.offset (n :: l) :=
    (Row.singleton hn.sound le_rfl hn.lt le_rfl).append h.row (hn.lt.le.trans hle) hle hstop
  exact ⟨⟨h.of, sound_make_of_plain hkind hrow h.of.offset_le, hn.lt.trans_le hstop, le_rfl, rfl,
    hkind.ne_comment⟩, rfl, h.offset_le, h.next_le⟩

/-- A node from right here is crossed. -/
theorem node_crosses (hkind : Plain kind) (h : Crosses s i l j) (hlt : i.offset < j.offset) :
    (Reader.node kind i.offset l).Gives j fun n k => Crosses s i [n] k := by
  rintro _ _ _ ⟨⟩
  refine ⟨h.of, h.offset_le, .singleton ?_ le_rfl hlt le_rfl⟩
  exact sound_make_of_plain hkind h.row h.of.offset_le

/-! ## Marks and words -/

theorem toList_ne_nil {m : String} (hm : m ≠ "") : m.toList ≠ [] :=
  fun h => hm (String.toList_eq_nil_iff.mp h)

/-- Something is taken, or nothing is. -/
structure Tried (s : List Char) (i : Input) (b : Bool) (j : Input) : Prop where
  taken : b = true → Takes s i [] j
  left : b = false → j = i

theorem tries_takes {m : String} (hm : m ≠ "") (hi : i.Of s) : (tries m).Gives i (Tried s i) := by
  rw [tries, gives_sees_bind]
  refine .ite (fun h => ?_) fun _ => gives_pure.mpr ⟨nofun, fun _ => rfl⟩
  rintro _ _ _ ⟨⟩
  refine ⟨fun _ => .drop hi ?_ fun hnil => ?_, nofun⟩
  · rw [← String.length_toList]
    exact List.length_pos_iff.mpr (toList_ne_nil hm)
  · rw [hnil, List.isPrefixOf_iff_prefix] at h
    exact toList_ne_nil hm (List.prefix_nil.mp h)

theorem wordOf_ne_nil {t : List Char} {w : String} (hw : w ≠ "")
    (h : String.ofList (wordOf t) = w) : t ≠ [] := by
  rintro rfl
  exact hw h.symm

theorem triesWord_takes {w : String} (hw : w ≠ "") (hi : i.Of s) :
    (triesWord w).Gives i (Tried s i) := by
  rw [triesWord, gives_peekWord_bind]
  refine .ite (fun h => ?_) fun _ => gives_pure.mpr ⟨nofun, fun _ => rfl⟩
  rintro _ _ _ ⟨⟩
  refine ⟨fun _ => .drop hi ?_ (wordOf_ne_nil hw (eq_of_beq h)), nofun⟩
  rw [← String.length_toList]
  exact List.length_pos_iff.mpr (toList_ne_nil hw)

/-- Whether or not something comes next that may be taken, it is passed. -/
theorem Reader.Gives.passes {r : Reader Bool} (hi : i.Of s)
    (h : r.Gives i (Tried s i)) : r.Gives i fun _ j => Passes s i [] j := by
  refine h.mono fun b j hb => ?_
  cases b with
  | true => exact (hb.taken rfl).toPasses
  | false =>
    obtain rfl := hb.left rfl
    exact .refl hi

theorem tries_passes {m : String} (hm : m ≠ "") (hi : i.Of s) :
    (tries m).Gives i fun _ j => Passes s i [] j :=
  (tries_takes hm hi).passes hi

theorem triesWord_passes {w : String} (hw : w ≠ "") (hi : i.Of s) :
    (triesWord w).Gives i fun _ j => Passes s i [] j :=
  (triesWord_takes hw hi).passes hi

/-- What depends on whether something is taken that may come next. -/
theorem Reader.Gives.ite_bind {r : Reader Bool} {x y : Reader β}
    (h : r.Gives i (Tried s i))
    (hx : ∀ j, Takes s i [] j → x.Gives j Q) (hy : y.Gives i Q) :
    (r >>= fun b => if b = true then x else y).Gives i Q := by
  refine h.bind fun b j hb => ?_
  cases b with
  | true => exact hx j (hb.taken rfl)
  | false =>
    obtain rfl := hb.left rfl
    exact hy

/-- What has to be taken. -/
theorem Reader.Gives.must {r : Reader Bool}
    (h : r.Gives i (Tried s i)) :
    (do guard (← r) : Reader Unit).Gives i fun _ j => Takes s i [] j := by
  refine h.bind fun b j hb => ?_
  cases b with
  | true =>
    rintro _ _ _ ⟨⟩
    exact hb.taken rfl
  | false => exact fun _ _ _ hrun => nomatch hrun

theorem mark_takes {m : String} (hm : m ≠ "") (hi : i.Of s) :
    (mark m).Gives i fun _ j => Takes s i [] j :=
  .must (tries_takes hm hi)

theorem word_takes {w : String} (hw : w ≠ "") (hi : i.Of s) :
    (word w).Gives i fun _ j => Takes s i [] j :=
  .must (triesWord_takes hw hi)

theorem semicolon_passes (complete : Bool) (hi : i.Of s) :
    (semicolon complete).Gives i fun _ j => Passes s i [] j := by
  rw [semicolon, gives_ended_bind]
  refine .ite (fun _ => gives_pure.mpr (.refl hi)) fun _ => ?_
  exact (mark_takes (by decide) hi).mono fun _ _ h => h.toPasses

theorem gives_peekBehindWord_bind {f : List Char → Reader β} (h : ∀ t, (f t).Gives i Q) :
    (peekBehindWord >>= f).Gives i Q :=
  (gives_step fun _ => rfl).mpr (h _)

theorem gives_seesEquals_bind {f : Bool → Reader β} (h : ∀ b, (f b).Gives i Q) :
    (seesEquals >>= f).Gives i Q := by
  refine .look ?_ h
  rw [seesEquals, gives_peek_bind]
  split <;> exact gives_pure.mpr rfl

/-! ## Names -/

/-- A token of at least one character is read as a node of a kind that says nothing of its text. -/
theorem leaf_reads (hkind : Plain kind) (hi : i.Of s) {k : ℕ} (hk : 0 < k)
    (hrest : i.next.rest ≠ []) : (leaf kind k).Gives i (Reads s i) := by
  rw [leaf, gives_start_bind, gives_take_bind]
  exact node_reads hkind (.drop hi hk hrest)

theorem anyWord_reads (hkind : Plain kind) (hi : i.Of s) :
    (anyWord kind).Gives i (Reads s i) := by
  rw [anyWord, gives_peek_bind, gives_guard_bind]
  intro h
  have hne : wordOf i.next.rest ≠ [] := by simpa using h
  refine leaf_reads hkind hi (List.length_pos_iff.mpr hne) fun hnil => ?_
  rw [hnil] at hne
  exact hne rfl

theorem name_reads (hkind : Plain kind) (hi : i.Of s) : (name kind).Gives i (Reads s i) := by
  rw [name, gives_peekWord_bind, gives_guard_bind]
  exact fun _ => anyWord_reads hkind hi

theorem privateName_reads (hi : i.Of s) : privateName.Gives i (Reads s i) := by
  rw [privateName, gives_peek_bind]
  split
  · next t hrest =>
    rw [gives_guard_bind]
    exact fun _ => leaf_reads (by decide) hi (Nat.succ_pos _) (by simp [hrest])
  · exact .failure

theorem skipPageComments_passes (hi : i.Of s) :
    skipPageComments.Gives i fun _ j => Passes s i [] j := by
  refine .iterate (.refl hi) fun _ j h => ?_
  rw [gives_get_bind]
  refine .ite (fun _ => ?_) fun _ => gives_pure.mpr h
  rintro _ _ _ ⟨⟩
  exact h.append (.drop h.of _)

/-! ## Numbers and regular expressions -/

theorem number_reads (hi : i.Of s) : number.Gives i (Reads s i) := by
  rw [number, gives_peek_bind, gives_guard_bind]
  intro hpos
  rw [leaf, gives_start_bind]
  rintro _ _ _ ⟨⟩
  have hrest : i.next.rest ≠ [] := by
    intro hnil
    rw [hnil] at hpos
    revert hpos
    decide
  have htakes : Takes s i [] (i.next.drop (numberLength i.next.rest)) := .drop hi hpos hrest
  refine reads_make htakes (sound_make .nil htakes.of.offset_le (by decide) ?_ ?_ fun _ => ?_)
    (by decide)
  · exact fun h => absurd h (by decide)
  · exact fun h => absurd h (by decide)
  · exact ⟨_, hi.next.covers_drop _, numberText_take hpos⟩

theorem regex_reads (hi : i.Of s) : regex.Gives i (Reads s i) := by
  rw [regex, gives_peek_bind]
  split
  · next t hrest =>
    split
    · rw [gives_guard_bind]
      exact fun _ => leaf_reads (by decide) hi (by omega) (by simp [hrest])
    · exact .failure
  · exact .failure

/-! ## Strings -/

/-- A part of a literal is crossed. -/
theorem part_crosses (hi : i.Of s) {k : ℕ} (hk : 0 < k) (hrest : i.rest ≠ [])
    (hkind : kind ∉ [Node.errorKind, "parenthesized_expression", "number"])
    (hescape : kind = "escape_sequence" → EscapeToken (i.rest.take k)) :
    (part kind k).Gives i fun n j => Crosses s i [n] j := by
  rw [part, gives_get_bind]
  rintro _ _ _ ⟨⟩
  have hof := hi.drop k
  have hlt := Input.offset_lt_drop hk hrest
  simp only [List.mem_cons, List.not_mem_nil, or_false, not_or] at hkind
  obtain ⟨herror, hparentheses, hnumber⟩ := hkind
  refine ⟨hof, hlt.le, .singleton ?_ le_rfl hlt le_rfl⟩
  refine sound_make .nil hof.offset_le herror (absurd · hparentheses) (fun h => ?_)
    (absurd · hnumber)
  exact ⟨_, hi.covers_drop k, hescape h⟩

theorem escape_crosses (hi : i.Of s) : escape.Gives i fun n j => Crosses s i [n] j := by
  rw [escape, gives_get_bind]
  split
  · next t hrest =>
    split
    · next k hk =>
      obtain ⟨-, htoken⟩ := escapeToken_take hk
      refine part_crosses hi (Nat.succ_pos k) (by simp [hrest]) (by decide) fun _ => ?_
      rwa [hrest, List.take_succ_cons]
    · exact .failure
  · exact .failure

/-- What is left behind a comment is an end of the text. -/
theorem suffix_of_mem_afterComments {behind : List Char} (w : Within) (t : List Char)
    (h : behind ∈ afterCommentsFrom w t) : behind <:+ t := by
  induction w, t using afterCommentsFrom.induct with
  | case1 => cases h
  | case2 t ih => exact (ih h).trans ((List.suffix_cons _ t).trans (List.suffix_cons _ _))
  | case3 t ih => exact (ih h).trans ((List.suffix_cons _ t).trans (List.suffix_cons _ _))
  | case4 c t hline hblock hgap ih =>
    rw [afterCommentsFrom, if_pos hgap] at h
    · exact (ih h).trans (List.suffix_cons c t)
    all_goals assumption
  | case5 c t hline hblock hgap =>
    rw [afterCommentsFrom, if_neg hgap] at h
    · cases h
    all_goals assumption
  | case6 =>
    rw [List.mem_singleton.mp h]
  | case7 c t hend ih =>
    rw [afterCommentsFrom, if_pos hend] at h
    rcases List.mem_cons.mp h with rfl | h
    · exact List.suffix_rfl
    · exact (ih h).trans (List.suffix_cons c t)
  | case8 c t hend ih =>
    rw [afterCommentsFrom, if_neg hend] at h
    exact (ih h).trans (List.suffix_cons c t)
  | case9 => cases h
  | case10 start star c t hend ih =>
    rw [afterCommentsFrom, if_pos hend] at h
    rcases List.mem_cons.mp h with rfl | h
    · exact List.suffix_cons c _
    · exact (ih h).trans (List.suffix_cons c t)
  | case11 start star c t hend ih =>
    rw [afterCommentsFrom, if_neg hend] at h
    exact (ih h).trans (List.suffix_cons c t)

theorem commentLength?_pos {t : List Char} {k : ℕ} (h : commentLength? t = some k) :
    0 < k ∧ t ≠ [] := by
  unfold commentLength? at h
  dsimp only at h
  split at h
  · next t behind rest hbehind =>
    obtain rfl := Option.some.inj h
    have hmem : behind ∈ afterCommentsFrom .gap ('/' :: t) := by
      rw [show afterCommentsFrom .gap ('/' :: t) = behind :: rest from hbehind]
      exact List.mem_cons_self
    have hsuffix : behind <:+ t := by
      rcases t with - | ⟨c, t⟩
      · cases hmem
      · by_cases hline : c = '/'
        · rw [hline, afterCommentsFrom] at hmem
          exact (suffix_of_mem_afterComments _ t hmem).trans (List.suffix_cons c t)
        · by_cases hblock : c = '*'
          · rw [hblock, afterCommentsFrom] at hmem
            exact (suffix_of_mem_afterComments _ t hmem).trans (List.suffix_cons c t)
          · -- A slash is no gap, so nothing else is a comment.
            rw [afterCommentsFrom, if_neg (by decide)] at hmem
            · cases hmem
            · exact fun _ _ h => hline (List.cons.inj h).1
            · exact fun _ _ h => hblock (List.cons.inj h).1
    have := hsuffix.length_le
    exact ⟨by simp only [List.length_cons]; omega, List.cons_ne_nil _ _⟩
  · cases h

theorem stringGap_crosses (quote : Char) (hi : i.Of s) :
    (stringGap quote).Gives i fun l j => Crosses s i l j := by
  have hmodify : ∀ bound, (((modify fun i => i.drop (i.rest.takeWhile isGap).length :
      Reader Unit)).run bound).run i = some ((), i.drop (i.rest.takeWhile isGap).length) :=
    fun _ => rfl
  rw [stringGap, gives_step hmodify, gives_get_bind]
  have hgap := Crosses.drop hi (i.rest.takeWhile isGap).length
  dsimp only
  split
  · next k hk =>
    obtain ⟨hpos, hne⟩ := commentLength?_pos hk
    refine (part_crosses hgap.of hpos hne (by decide) fun h => absurd h (by decide)).bind
      fun n j hn => gives_pure.mpr (hgap.append hn)
  · rw [gives_guard_bind]
    exact fun _ => gives_pure.mpr hgap

theorem stringPart_crosses (quote : Char) (hi : i.Of s) :
    (stringPart? quote).Gives i fun o j => Crosses s i (o.getD []) j := by
  rw [stringPart?, gives_get_bind]
  split
  · exact .failure
  · next c t hrest =>
    refine .ite (fun _ => gives_pure.mpr (.refl hi)) fun hquote => .ite (fun _ => ?_) fun hslash =>
      .ite (fun _ => ?_) fun hbreak => ?_
    · exact (escape_crosses hi).bind fun n j hn => gives_pure.mpr hn
    · exact (stringGap_crosses quote hi).bind fun l j hl => gives_pure.mpr hl
    · refine (part_crosses hi ?_ (by simp [hrest]) (by decide) fun h => absurd h (by decide)).bind
        fun n j hn => gives_pure.mpr hn
      simp_all

theorem skip_crosses (k : ℕ) (hi : i.Of s) :
    (Reader.skip k).Gives i fun _ j => Crosses s i [] j := by
  rintro _ _ _ ⟨⟩
  exact .drop hi k

theorem string_reads (hi : i.Of s) : string.Gives i (Reads s i) := by
  rw [string, gives_start_bind, gives_peek_bind]
  split
  · next quote t hrest =>
    rw [gives_guard_bind]
    intro _
    have hopen : Takes s i [] (i.next.drop 1) := .drop hi Nat.one_pos (by simp [hrest])
    rw [gives_take_bind]
    refine (Reader.Gives.many (g := id) (I := Crosses s (i.next.drop 1)) (.refl hopen.of)
      fun l j hl => ?_).bind fun parts j hparts => ?_
    · exact (stringPart_crosses quote hl.of).mono fun o k ho => hl.append (by simpa using ho)
    · refine (skip_crosses 1 hparts.of).bind fun _ k hclose => ?_
      have hway := hopen.crosses (hparts.append hclose)
      rw [List.flatMap_id, List.append_nil] at hway
      exact node_reads (by decide) hway
  · exact .failure

end DocSignature.JavaScript
