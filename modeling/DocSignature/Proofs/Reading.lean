import DocSignature.JavaScript.Literal
import DocSignature.JavaScript.Pattern
import DocSignature.Proofs.SoundTree

/-!
# What readers give

A reader of source text is followed step by step : `Reader.Gives` says that what it gives from an
input, if it does not fail, satisfies a condition. A sequence is taken apart by `Gives.bind`, and a
reader that only looks is left out (`gives_step`, `Gives.look`).

The condition is the same for all readers. On the way from the next token of one input to another
input the nodes of a row are passed (`Passes`), and in most cases something is taken (`Takes`). Ways
are put together by `Passes.append`, and a node that is made over a way is sound. So a reader is
understood as soon as the readers that it calls are.
-/

namespace DocSignature.JavaScript

variable {s : List Char} {i j k : Input} {n m : Node} {l l' : List Node}

/-- A node fits in any field. -/
theorem sound_fill (field : String) (h : n.Sound s) : (fill field n).Sound s := by
  obtain ⟨hfit, hchildren⟩ := Node.sound_iff.mp h
  exact Node.sound_iff.mpr ⟨⟨hfit.isFault, hfit.flagged, hfit.inOrder, hfit.stop_le,
    hfit.parentheses, hfit.escape, hfit.number⟩, hchildren⟩

theorem sound_withKind {kind : String} (hkind : Plain kind) (h : n.Sound s) :
    Node.Sound s { n with kind } := by
  obtain ⟨hfit, hchildren⟩ := Node.sound_iff.mp h
  simp only [Plain, List.mem_cons, List.not_mem_nil, or_false, not_or] at hkind
  obtain ⟨herror, -, hparentheses, hescape, hnumber⟩ := hkind
  have hmissing : n.missing = false := (Bool.or_eq_false_iff.mp hfit.isFault).2
  have hfault : Node.isFault { n with kind } = false := by simp [Node.isFault, herror, hmissing]
  exact Node.sound_iff.mpr ⟨⟨hfault, hfit.flagged, hfit.inOrder, hfit.stop_le,
    (absurd · hparentheses), (absurd · hescape), (absurd · hnumber)⟩, hchildren⟩

theorem sound_objectOf (h : n.Sound s) : (objectOf n).Sound s := by
  unfold objectOf
  split
  · obtain ⟨hfit, hchildren⟩ := Node.sound_iff.mp h
    exact Node.sound_iff.mpr ⟨⟨hfit.isFault, fun _ _ _ => rfl, hfit.inOrder, hfit.stop_le,
      hfit.parentheses, hfit.escape, hfit.number⟩, hchildren⟩
  · exact h

/-! ## Inputs -/

namespace Input

/-- The input is what is left of a text, with the offset where that starts. -/
def Of (s : List Char) (i : Input) : Prop :=
  ∃ front, s = front ++ i.rest ∧ i.offset = (Utf8.encode front).length

theorem of_self (s : List Char) : Of s ⟨0, s⟩ := ⟨[], rfl, rfl⟩

theorem drop_eq : ∀ (n : ℕ) (i : Input),
    i.drop n = ⟨i.offset + (Utf8.encode (i.rest.take n)).length, i.rest.drop n⟩
  | 0, i => by simp [drop, Utf8.encode]
  | n + 1, ⟨o, []⟩ => by simp [drop, Utf8.encode]
  | n + 1, ⟨o, c :: t⟩ => by
    rw [drop, drop_eq n]
    simp only [List.take_succ_cons, List.drop_succ_cons, length_encode_cons, Nat.add_assoc]

theorem offset_le_drop (n : ℕ) (i : Input) : i.offset ≤ (i.drop n).offset := by
  rw [drop_eq]
  exact Nat.le_add_right _ _

theorem offset_lt_drop {n : ℕ} (hn : 0 < n) (hi : i.rest ≠ []) :
    i.offset < (i.drop n).offset := by
  obtain ⟨c, t, hrest⟩ := List.exists_cons_of_ne_nil hi
  obtain ⟨m, rfl⟩ := Nat.exists_eq_succ_of_ne_zero hn.ne'
  have := c.utf8Size_pos
  rw [drop_eq, hrest, List.take_succ_cons, length_encode_cons]
  dsimp only
  omega

namespace Of

theorem offset_le (h : i.Of s) : i.offset ≤ (Utf8.encode s).length := by
  obtain ⟨front, hs, ho⟩ := h
  rw [ho, hs, Utf8.encode_append, List.length_append]
  exact Nat.le_add_right _ _

theorem drop (h : i.Of s) (n : ℕ) : (i.drop n).Of s := by
  obtain ⟨front, hs, ho⟩ := h
  refine ⟨front ++ i.rest.take n, ?_, ?_⟩
  · rw [drop_eq, List.append_assoc, List.take_append_drop, ← hs]
  · rw [drop_eq, Utf8.encode_append, List.length_append, ← ho]

/-- The characters that are dropped are those between the two offsets. -/
theorem covers_drop (h : i.Of s) (n : ℕ) :
    Covers s i.offset (i.drop n).offset (i.rest.take n) := by
  obtain ⟨front, hs, ho⟩ := h
  refine ⟨front, i.rest.drop n, ?_, ho, ?_⟩
  · rw [List.take_append_drop, ← hs]
  · rw [drop_eq, Utf8.encode_append, List.length_append, ← ho]

theorem cons {o : ℕ} {c : Char} {t : List Char} (h : Of s ⟨o, c :: t⟩) :
    Of s ⟨o + c.utf8Size, t⟩ :=
  h.drop 1

end Of

/-- What is skipped between two tokens ends no earlier than it starts : behind it, or, if a comment
is not closed, at the mark that opens it. -/
theorem of_skipFrom {lo : ℕ} : ∀ (w : Within) (o : ℕ) (t : List Char),
    (∀ start star, w = .block start star → start.Of s ∧ lo ≤ start.offset) → Of s ⟨o, t⟩ →
      lo ≤ o → (skipFrom w o t).Of s ∧ lo ≤ (skipFrom w o t).offset := by
  intro w o t
  induction w, o, t using skipFrom.induct with
  | case1 o =>
    intro _ h hlo
    exact ⟨h, hlo⟩
  | case2 o t ih =>
    intro _ h hlo
    exact ih nofun (h.drop 2) (hlo.trans (Nat.le_add_right _ _))
  | case3 o t ih =>
    intro _ h hlo
    refine ih (fun start star hw => ?_) (h.drop 2) (hlo.trans (Nat.le_add_right _ _))
    cases hw
    exact ⟨h, hlo⟩
  | case4 o c t hline hblock hgap ih =>
    intro _ h hlo
    rw [skipFrom, if_pos hgap]
    · exact ih nofun h.cons (hlo.trans (Nat.le_add_right _ _))
    all_goals assumption
  | case5 o c t hline hblock hgap =>
    intro _ h hlo
    rw [skipFrom, if_neg hgap]
    · exact ⟨h, hlo⟩
    all_goals assumption
  | case6 o =>
    intro _ h hlo
    exact ⟨h, hlo⟩
  | case7 o c t ih =>
    intro _ h hlo
    rw [skipFrom]
    refine ih (fun start star hw => ?_) h.cons (hlo.trans (Nat.le_add_right _ _))
    split at hw <;> cases hw
  | case8 o start star =>
    intro hw _ _
    exact hw _ _ rfl
  | case9 o start star c t ih =>
    intro hw h hlo
    rw [skipFrom]
    refine ih (fun start' star' hw' => ?_) h.cons (hlo.trans (Nat.le_add_right _ _))
    split at hw'
    · cases hw'
    · cases hw'
      exact hw _ _ rfl

theorem Of.next (h : i.Of s) : i.next.Of s := (of_skipFrom .gap i.offset i.rest nofun h le_rfl).1

theorem offset_le_next (h : i.Of s) : i.offset ≤ i.next.offset :=
  (of_skipFrom .gap i.offset i.rest nofun h le_rfl).2

end Input

/-! ## Ways -/

/-- On the way from the next token of an input to another input the nodes of a row are passed. -/
structure Passes (s : List Char) (i : Input) (l : List Node) (j : Input) : Prop where
  of : j.Of s
  offset_le : i.offset ≤ j.offset
  next_le : i.next.offset ≤ j.next.offset
  row : Row s i.next.offset j.offset l

/-- On this way at least one character is taken. -/
structure Takes (s : List Char) (i : Input) (l : List Node) (j : Input) : Prop
    extends Passes s i l j where
  lt : i.next.offset < j.offset

/-- A node is read, which is named and no comment. -/
structure Reads (s : List Char) (i : Input) (n : Node) (j : Input) : Prop
    extends Takes s i [n] j where
  named : n.named = true
  kind : n.kind ≠ "comment"

/-- Nodes are passed on the way from right here, without regard to gaps. -/
structure Crosses (s : List Char) (i : Input) (l : List Node) (j : Input) : Prop where
  of : j.Of s
  offset_le : i.offset ≤ j.offset
  row : Row s i.offset j.offset l

/-- Such a node lies before an input. -/
structure Before (s : List Char) (n : Node) (i : Input) : Prop where
  of : i.Of s
  sound : n.Sound s
  lt : n.start < n.stop
  le : n.stop ≤ i.offset
  named : n.named = true
  kind : n.kind ≠ "comment"

/-- On the way from the next token of an input, a node that starts at an earlier offset is made. -/
structure Grows (s : List Char) (start : ℕ) (i : Input) (n : Node) (j : Input) : Prop
    extends Before s n j where
  start_eq : n.start = start
  offset_le : i.offset ≤ j.offset
  next_le : i.next.offset ≤ j.next.offset

namespace Passes

theorem refl (hi : i.Of s) : Passes s i [] i := ⟨hi, le_rfl, le_rfl, .nil⟩

theorem append (h : Passes s i l j) (h' : Passes s j l' k) : Passes s i (l ++ l') k where
  of := h'.of
  offset_le := h.offset_le.trans h'.offset_le
  next_le := h.next_le.trans h'.next_le
  row := h.row.append h'.row h.next_le (Input.offset_le_next h.of) h'.offset_le

theorem takes (h : Passes s i l j) (h' : Takes s j l' k) : Takes s i (l ++ l') k :=
  ⟨h.append h'.toPasses, h.next_le.trans_lt h'.lt⟩

theorem upTo (h : Passes s i l j) (h' : Takes s j [] k) : Takes s i l k :=
  List.append_nil l ▸ h.takes h'

/-- The way goes on without a node. -/
theorem on (h : Passes s i l j) (h' : Passes s j [] k) : Passes s i l k :=
  List.append_nil l ▸ h.append h'

/-- The nodes on the way are left out. -/
theorem forget (h : Passes s i l j) : Passes s i [] j := ⟨h.of, h.offset_le, h.next_le, .nil⟩

theorem crosses (hi : i.Of s) (h : Passes s i l j) : Crosses s i l j :=
  ⟨h.of, h.offset_le, h.row.mono (Input.offset_le_next hi) le_rfl⟩

end Passes

namespace Takes

theorem append (h : Takes s i l j) (h' : Passes s j l' k) : Takes s i (l ++ l') k :=
  ⟨h.toPasses.append h', h.lt.trans_le h'.offset_le⟩

theorem on (h : Takes s i l j) (h' : Passes s j [] k) : Takes s i l k :=
  List.append_nil l ▸ h.append h'

theorem crosses (h : Takes s i l j) (h' : Crosses s j l' k) : Takes s i (l ++ l') k where
  of := h'.of
  offset_le := h.offset_le.trans h'.offset_le
  next_le := h.lt.le.trans (h'.offset_le.trans (Input.offset_le_next h'.of))
  row := h.row.append h'.row (h.lt.le) le_rfl h'.offset_le
  lt := h.lt.trans_le h'.offset_le

theorem forget (h : Takes s i l j) : Takes s i [] j := ⟨h.toPasses.forget, h.lt⟩

/-- Another node of the same span takes the place of one on the way. -/
theorem replace (h : Takes s i [n] j) (hsound : m.Sound s) (hstart : m.start = n.start)
    (hstop : m.stop = n.stop) : Takes s i [m] j := by
  obtain ⟨hlo, hlt, hhi, -⟩ := h.row.inOrder
  rw [← hstart] at hlo hlt
  rw [← hstop] at hlt hhi
  exact ⟨⟨h.of, h.offset_le, h.next_le, .singleton hsound hlo hlt hhi⟩, h.lt⟩

/-- A token of at least one character is taken. -/
theorem drop (hi : i.Of s) {n : ℕ} (hn : 0 < n) (hrest : i.next.rest ≠ []) :
    Takes s i [] (i.next.drop n) := by
  have hlt := Input.offset_lt_drop hn hrest
  have hof := hi.next.drop n
  refine ⟨⟨hof, ?_, ?_, .nil⟩, hlt⟩
  · exact (Input.offset_le_next hi).trans hlt.le
  · exact hlt.le.trans (Input.offset_le_next hof)

end Takes

theorem Passes.drop (hi : i.Of s) (n : ℕ) : Passes s i [] (i.next.drop n) := by
  have hle := Input.offset_le_drop n i.next
  have hof := hi.next.drop n
  refine ⟨hof, ?_, ?_, .nil⟩
  · exact (Input.offset_le_next hi).trans hle
  · exact hle.trans (Input.offset_le_next hof)

namespace Crosses

theorem refl (hi : i.Of s) : Crosses s i [] i := ⟨hi, le_rfl, .nil⟩

theorem append (h : Crosses s i l j) (h' : Crosses s j l' k) : Crosses s i (l ++ l') k :=
  ⟨h'.of, h.offset_le.trans h'.offset_le,
    h.row.append h'.row h.offset_le le_rfl h'.offset_le⟩

theorem drop (hi : i.Of s) (n : ℕ) : Crosses s i [] (i.drop n) :=
  ⟨hi.drop n, Input.offset_le_drop n i, .nil⟩

end Crosses

namespace Reads

theorem before (h : Reads s i n j) : Before s n j where
  of := h.of
  sound := h.row.sound n List.mem_cons_self
  lt := h.row.inOrder.2.1
  le := h.row.inOrder.2.2.1
  named := h.named
  kind := h.kind

theorem start_le (h : Reads s i n j) : i.next.offset ≤ n.start := h.row.inOrder.1

theorem on (h : Reads s i n j) (h' : Passes s j [] k) : Reads s i n k :=
  ⟨h.toTakes.on h', h.named, h.kind⟩

/-- A node that lies behind the next token of an input is read from there. -/
theorem of_before (h : Before s n j) (hstart : i.next.offset ≤ n.start) (hi : i.Of s) :
    Reads s i n j where
  of := h.of
  offset_le := by
    have := h.lt
    have := h.le
    have := Input.offset_le_next hi
    omega
  next_le := by
    have := h.lt
    have := h.le
    have := Input.offset_le_next h.of
    omega
  row := .singleton h.sound hstart h.lt h.le
  lt := by
    have := h.lt
    have := h.le
    omega
  named := h.named
  kind := h.kind

/-- Another node of the same span takes the place of the one that is read. -/
theorem replace (h : Reads s i n j) (hsound : m.Sound s) (hstart : m.start = n.start)
    (hstop : m.stop = n.stop) (hnamed : m.named = true) (hkind : m.kind ≠ "comment") :
    Reads s i m j :=
  ⟨h.toTakes.replace hsound hstart hstop, hnamed, hkind⟩

theorem behind (h : Reads s j n k) (h' : Passes s i [] j) : Reads s i n k :=
  ⟨h'.takes h.toTakes, h.named, h.kind⟩

theorem fill (h : Reads s i n j) (field : String) : Reads s i (JavaScript.fill field n) j :=
  h.replace (sound_fill field h.before.sound) rfl rfl h.named h.kind

theorem grows (h : Reads s i n j) (hi : i.Of s) (h' : Grows s n.start j m k) : Reads s i m k :=
  of_before h'.toBefore (h'.start_eq ▸ h.start_le) hi

end Reads

namespace Before

theorem fill (h : Before s n i) (field : String) : Before s (JavaScript.fill field n) i :=
  ⟨h.of, sound_fill field h.sound, h.lt, h.le, h.named, h.kind⟩

/-- A node is left as it is on a way. -/
theorem grows (h : Before s n i) (h' : Passes s i l j) : Grows s n.start i n j where
  of := h'.of
  sound := h.sound
  lt := h.lt
  le := h.le.trans h'.offset_le
  named := h.named
  kind := h.kind
  start_eq := rfl
  offset_le := h'.offset_le
  next_le := h'.next_le

end Before

theorem Grows.trans {start : ℕ} (h : Grows s start i n j) (h' : Grows s n.start j m k) :
    Grows s start i m k :=
  ⟨h'.toBefore, h'.start_eq.trans h.start_eq, h.offset_le.trans h'.offset_le,
    h.next_le.trans h'.next_le⟩

/-! ## Steps -/

variable {α β : Type}

/-- What a reader gives from an input, if it does not fail, satisfies a condition. -/
def Reader.Gives (r : Reader α) (i : Input) (P : α → Input → Prop) : Prop :=
  ∀ bound a j, (r.run bound).run i = some (a, j) → P a j

variable {r r' : Reader α} {f : α → Reader β} {P P' : α → Input → Prop} {Q : β → Input → Prop}

namespace Reader.Gives

theorem bind (h : r.Gives i P) (hf : ∀ a j, P a j → (f a).Gives j Q) : (r >>= f).Gives i Q := by
  intro bound b k hrun
  rw [ReaderT.run_bind, StateT.run_bind] at hrun
  obtain ⟨⟨a, j⟩, ha, hb⟩ := Option.bind_eq_some_iff.mp hrun
  exact hf a j (h bound a j ha) bound b k hb

theorem mono (h : r.Gives i P) (himp : ∀ a j, P a j → P' a j) : r.Gives i P' :=
  fun bound a j hrun => himp a j (h bound a j hrun)

/-- A reader that only looks is left out, whatever it sees. -/
theorem look (h : r.Gives i fun _ j => j = i) (hf : ∀ a, (f a).Gives i Q) : (r >>= f).Gives i Q :=
  h.bind fun a _ hj => hj ▸ hf a

theorem orElse (h : r.Gives i P) (h' : r'.Gives i P) : (r <|> r').Gives i P := by
  intro bound a j hrun
  have heq : ((r <|> r').run bound).run i =
      ((r.run bound).run i).or ((r'.run bound).run i) := by
    change ((r.run bound).run i <|> (r'.run bound).run i) = _
    cases (r.run bound).run i <;> rfl
  rcases Option.or_eq_some_iff.mp (heq.symm.trans hrun) with hrun | ⟨-, hrun⟩
  · exact h bound a j hrun
  · exact h' bound a j hrun

theorem failure : (failure : Reader α).Gives i P := nofun

theorem ite {p : Prop} [Decidable p] (h : p → r.Gives i P) (h' : ¬p → r'.Gives i P) :
    (if p then r else r').Gives i P := by
  split_ifs with hp
  · exact h hp
  · exact h' hp

/-- What holds at first and is kept by each step holds at the end. -/
theorem iterate {step : α → Reader (Option α)} {a : α} (h : P a i)
    (hstep : ∀ a j, P a j → (step a).Gives j fun o k => P (o.getD a) k) :
    (Reader.iterate step a).Gives i P := by
  have hfor : ∀ bound a i, P a i → (iterateFor bound step a).Gives i P := by
    intro bound
    induction bound with
    | zero => exact fun _ _ _ => failure
    | succ bound ih =>
      intro a i h
      refine (hstep a i h).bind fun o j ho => ?_
      cases o with
      | some b => exact ih b j ho
      | none =>
        rintro _ _ _ ⟨⟩
        exact ho
  intro bound b j hrun
  exact hfor bound a i h bound b j hrun

/-- The list of all that a reader gives keeps what holds at first and is kept by each step. -/
theorem many {γ : Type} {item : Reader (Option α)} {g : α → List γ} {I : List γ → Input → Prop}
    (h : I [] i)
    (hitem : ∀ l j, I l j → item.Gives j fun o k => I (l ++ (o.map g).getD []) k) :
    (Reader.many item).Gives i fun items j => I (items.flatMap g) j := by
  refine bind (P := fun items j => I (items.reverse.flatMap g) j)
    (iterate h fun items j hj => ?_) fun items j hj => ?_
  · refine (hitem _ j hj).bind fun o k hk => ?_
    rintro _ _ _ ⟨⟩
    cases o with
    | none => simpa using hk
    | some a => simpa using hk
  · rintro _ _ _ ⟨⟩
    exact hj

end Reader.Gives

theorem gives_pure {a : α} : (pure a : Reader α).Gives i P ↔ P a i := by
  constructor
  · exact fun h => h 0 a i rfl
  · rintro h _ _ _ ⟨⟩
    exact h

/-- A reader that always gives the same and leaves the same input may be left out. -/
theorem gives_step {a : α} (h : ∀ bound, (r.run bound).run i = some (a, j)) :
    (r >>= f).Gives i Q ↔ (f a).Gives j Q := by
  constructor
  · intro hg bound b k hrun
    refine hg bound b k ?_
    rw [ReaderT.run_bind, StateT.run_bind, h bound]
    exact hrun
  · intro hg bound b k hrun
    refine hg bound b k ?_
    rw [ReaderT.run_bind, StateT.run_bind, h bound] at hrun
    exact hrun

section Look

variable {f : Input → Reader β} {g : ℕ → Reader β} {h : Bool → Reader β}
  {t : List Char → Reader β} {w : String → Reader β} {u : Unit → Reader β}

@[simp] theorem gives_get_bind : (get >>= f : Reader β).Gives i Q ↔ (f i).Gives i Q :=
  gives_step fun _ => rfl

@[simp] theorem gives_here_bind : (here >>= f).Gives i Q ↔ (f i.next).Gives i Q :=
  gives_step fun _ => rfl

@[simp] theorem gives_start_bind : (start >>= g).Gives i Q ↔ (g i.next.offset).Gives i Q :=
  gives_step fun _ => rfl

@[simp] theorem gives_peek_bind : (peek >>= t).Gives i Q ↔ (t i.next.rest).Gives i Q :=
  gives_step fun _ => rfl

@[simp] theorem gives_peekWord_bind :
    (peekWord >>= w).Gives i Q ↔ (w (String.ofList (wordOf i.next.rest))).Gives i Q :=
  gives_step fun _ => rfl

@[simp] theorem gives_sees_bind (mark : String) :
    (sees mark >>= h).Gives i Q ↔ (h (mark.toList.isPrefixOf i.next.rest)).Gives i Q :=
  gives_step fun _ => rfl

@[simp] theorem gives_ended_bind (complete : Bool) :
    (ended complete >>= h).Gives i Q ↔ (h (semicolonAt complete i)).Gives i Q :=
  gives_step fun _ => rfl

@[simp] theorem gives_set_bind : ((set j : Reader Unit) >>= u).Gives i Q ↔ (u ()).Gives j Q :=
  gives_step fun _ => rfl

@[simp] theorem gives_take_bind (k : ℕ) :
    (take k >>= u).Gives i Q ↔ (u ()).Gives (i.next.drop k) Q :=
  gives_step fun _ => rfl

@[simp] theorem gives_guard_bind {p : Prop} [Decidable p] :
    ((guard p : Reader Unit) >>= u).Gives i Q ↔ (p → (u ()).Gives i Q) := by
  by_cases hp : p
  · have hrun : ∀ bound, (((guard p : Reader Unit)).run bound).run i = some ((), i) := by
      intro bound
      rw [guard, if_pos hp]
      rfl
    exact (gives_step hrun).trans (by simp only [hp, forall_const])
  · refine iff_of_true ?_ fun h => absurd h hp
    intro bound b j hrun
    rw [guard, if_neg hp] at hrun
    cases hrun

end Look

end DocSignature.JavaScript
