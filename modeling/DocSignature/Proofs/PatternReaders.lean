import DocSignature.JavaScript.Phrase
import DocSignature.Proofs.TokenReaders

/-!
# Patterns and lists

A pattern that is made of an expression takes its place : it has the same span, and is sound if the
expression is (`Replaces`). So a row of patterns lies where the row of expressions did
(`row_of_replaces`).

Readers that repeat go on along a way, over tokens and gaps (`many_passes`, `manyLists_pass`) or
without regard to gaps (`manyLists_cross`).
-/

namespace DocSignature.JavaScript

variable {s : List Char} {i j : Input} {n p : Node} {l ps : List Node} {lo hi : ℕ} {α β : Type}
  {Q : β → Input → Prop}

/-! ## Patterns -/

/-- A node takes the place of another. -/
structure Replaces (s : List Char) (n p : Node) : Prop where
  start : p.start = n.start
  stop : p.stop = n.stop
  sound : p.Sound s
  named : n.named = true → p.named = true

theorem inOrder_of_replaces (h : List.Forall₂ (Replaces s) l ps) :
    ∀ {lo : ℕ}, Node.InOrder lo hi l → Node.InOrder lo hi ps := by
  induction h with
  | nil => exact fun _ => trivial
  | cons hp _ ih =>
    rintro lo ⟨hstart, hlt, hstop, hrest⟩
    refine ⟨?_, ?_, ?_, ?_⟩
    · rwa [hp.start]
    · rwa [hp.start, hp.stop]
    · rwa [hp.stop]
    · rw [hp.stop]
      exact ih hrest

theorem row_of_replaces (h : Row s lo hi l) (hps : List.Forall₂ (Replaces s) l ps) :
    Row s lo hi ps := by
  refine ⟨inOrder_of_replaces hps h.inOrder, ?_⟩
  clear h
  induction hps with
  | nil => nofun
  | cons hp _ ih => exact List.forall_mem_cons.mpr ⟨hp.sound, ih⟩

theorem Replaces.refl (h : n.Sound s) : Replaces s n n := ⟨rfl, rfl, h, id⟩

theorem replaces_remake {kind : String} (h : n.Sound s) (hkind : Plain kind)
    (hps : List.Forall₂ (Replaces s) n.children ps) : Replaces s n (remake n kind ps) where
  start := rfl
  stop := rfl
  sound := sound_make_of_plain hkind
    (row_of_replaces ⟨h.fit.inOrder, fun _ hc => h.child hc⟩ hps) h.fit.stop_le
  named _ := rfl

theorem asPatterns_eq_mapM (bound : Bool) : ∀ l, asPatterns bound l = l.mapM (asPattern bound)
  | [] => rfl
  | _ :: rest => by rw [asPatterns, List.mapM_cons, asPatterns_eq_mapM bound rest]

theorem asMembers_eq_mapM : ∀ l, asMembers l = l.mapM asMember
  | [] => rfl
  | _ :: rest => by rw [asMembers, List.mapM_cons, asMembers_eq_mapM rest]

/-- What is made of a list takes its place if what is made of its nodes does. -/
theorem replaces_of_mapM {f : Node → Option Node} : ∀ {l ps : List Node}, l.mapM f = some ps →
    (∀ n ∈ l, ∀ p, f n = some p → Replaces s n p) → List.Forall₂ (Replaces s) l ps
  | [], _, h, _ => by
    obtain rfl := Option.some.inj h
    exact .nil
  | n :: rest, ps, h, hl => by
    rw [List.mapM_cons] at h
    obtain ⟨p, hp, h⟩ := Option.bind_eq_some_iff.mp h
    obtain ⟨ps, hps, h⟩ := Option.bind_eq_some_iff.mp h
    obtain rfl := Option.some.inj h
    exact .cons (hl n List.mem_cons_self p hp)
      (replaces_of_mapM hps fun m hm => hl m (List.mem_cons_of_mem n hm))

theorem asPattern_eq (bound : Bool) (n : Node) : asPattern bound n =
    if isPlace n || isDestructuring n then some n
    else if n.kind == "array" then (asPatterns true n.children).map (remake n "array_pattern")
    else if n.kind == "object" then (asMembers n.children).map (remake n "object_pattern")
    else if !bound then none
    else if n.kind == "spread_element" then
      (asPatterns false n.children).map (remake n "rest_pattern")
    else if n.kind == "assignment_expression" then asDefault n
    else none := by
  obtain ⟨_, _, _, _, _, _, _, children⟩ := n
  rw [asPattern]

theorem asMember_eq (n : Node) : asMember n =
    if n.kind == "object_assignment_pattern" then some n
    else if n.kind == "shorthand_property_identifier" then
      some (remake n "shorthand_property_identifier_pattern" [])
    else if n.kind == "spread_element" then
      (asPatterns false n.children).map (remake n "rest_pattern")
    else if n.kind == "pair" then (asPair n.children).map (remake n "pair_pattern")
    else none := by
  obtain ⟨_, _, _, _, _, _, _, children⟩ := n
  rw [asMember]

theorem asPair_replaces (hl : ∀ n ∈ l, n.Sound s)
    (hpattern : ∀ n ∈ l, ∀ p, asPattern true n = some p → Replaces s n p)
    (h : asPair l = some ps) : List.Forall₂ (Replaces s) l ps := by
  unfold asPair at h
  split at h
  · next key value =>
    obtain ⟨p, hp, rfl⟩ := Option.map_eq_some_iff.mp h
    exact .cons (.refl (hl key (by simp))) (.cons (hpattern value (by simp) p hp) .nil)
  · cases h

/-- A pattern takes the place of an expression, and a member of an object pattern that of a member
of an object. -/
theorem asPattern_asMember_replace (h : n.Sound s) :
    (∀ bound p, asPattern bound n = some p → Replaces s n p) ∧
      ∀ p, asMember n = some p → Replaces s n p := by
  induction n using Node.induction with
  | step n ih =>
    have hchild {bound : Bool} : ∀ c ∈ n.children, ∀ p, asPattern bound c = some p →
        Replaces s c p :=
      fun c hc => (ih c hc (h.child hc)).1 bound
    have hpatterns {bound : Bool} {ps : List Node} (hps : asPatterns bound n.children = some ps) :
        List.Forall₂ (Replaces s) n.children ps :=
      replaces_of_mapM (asPatterns_eq_mapM bound _ ▸ hps) hchild
    have hmembers {ps : List Node} (hps : asMembers n.children = some ps) :
        List.Forall₂ (Replaces s) n.children ps :=
      replaces_of_mapM (asMembers_eq_mapM _ ▸ hps) fun c hc => (ih c hc (h.child hc)).2
    constructor
    · intro bound p hp
      rw [asPattern_eq] at hp
      split_ifs at hp
      · exact Option.some.inj hp ▸ .refl h
      · obtain ⟨ps, hps, rfl⟩ := Option.map_eq_some_iff.mp hp
        exact replaces_remake h (by decide) (hpatterns hps)
      · obtain ⟨ps, hps, rfl⟩ := Option.map_eq_some_iff.mp hp
        exact replaces_remake h (by decide) (hmembers hps)
      · obtain ⟨ps, hps, rfl⟩ := Option.map_eq_some_iff.mp hp
        exact replaces_remake h (by decide) (hpatterns hps)
      · unfold asDefault at hp
        split_ifs at hp
        obtain rfl := Option.some.inj hp
        exact replaces_remake h (by decide)
          (List.forall₂_same.mpr fun c hc => .refl (h.child hc))
    · intro p hp
      rw [asMember_eq] at hp
      split_ifs at hp
      · exact Option.some.inj hp ▸ .refl h
      · obtain rfl := Option.some.inj hp
        exact ⟨rfl, rfl, sound_make_of_plain (by decide) .nil h.fit.stop_le, fun _ => rfl⟩
      · obtain ⟨ps, hps, rfl⟩ := Option.map_eq_some_iff.mp hp
        exact replaces_remake h (by decide) (hpatterns hps)
      · obtain ⟨ps, hps, rfl⟩ := Option.map_eq_some_iff.mp hp
        exact replaces_remake h (by decide)
          (asPair_replaces (fun c hc => h.child hc) hchild hps)

theorem asDestructuring_reads (h : Reads s i n j) : (asDestructuring n).Gives j fun p k =>
    k = j ∧ Reads s i p j := by
  unfold asDestructuring
  split
  · next p hp =>
    have hn := (asPattern_asMember_replace h.before.sound).1 _ _ hp
    rw [gives_guard_bind]
    refine fun hkind => gives_pure.mpr ⟨rfl, ?_⟩
    refine h.replace hn.sound hn.start hn.stop (hn.named h.named) fun hcomment => ?_
    simp [isDestructuring, hcomment] at hkind
  · exact .failure

theorem filterMap_of_mapM {slots : List (Option Node)} (h : slots.mapM id = some l) :
    slots.filterMap id = l := by
  induction slots generalizing l with
  | nil => simpa using h
  | cons slot rest ih =>
    rw [List.mapM_cons] at h
    obtain ⟨n, hslot, h⟩ := Option.bind_eq_some_iff.mp h
    obtain ⟨ns, hns, h⟩ := Option.bind_eq_some_iff.mp h
    obtain rfl := Option.some.inj h
    obtain rfl : slot = some n := hslot
    rw [List.filterMap_cons, ih hns]
    rfl

/-- The patterns of parameters take the places of the expressions in the slots. -/
theorem asParameters_takes {slots : List (Option Node)} (h : Takes s i (slots.filterMap id) j) :
    (asParameters slots).Gives j fun ps k => k = j ∧ Takes s i ps j := by
  have hslots : (if slots.getLast?.any Option.isNone then slots.dropLast else slots).filterMap id =
      slots.filterMap id := by
    split_ifs with hlast
    · have hnone : slots.getLast? = some none := by
        cases hslot : slots.getLast? with
        | none => simp [hslot] at hlast
        | some slot => simpa [hslot] using hlast
      conv_rhs => rw [← List.dropLast_append_getLast? none hnone]
      simp
    · rfl
  unfold asParameters
  dsimp only
  split
  · next items hitems =>
    split
    · next ps hps =>
      refine gives_pure.mpr ⟨rfl, ⟨h.of, h.offset_le, h.next_le, ?_⟩, h.lt⟩
      have hrow := h.row
      rw [← hslots, filterMap_of_mapM hitems] at hrow
      exact row_of_replaces hrow (replaces_of_mapM (asPatterns_eq_mapM _ _ ▸ hps) fun n hn =>
        (asPattern_asMember_replace (hrow.sound n hn)).1 true)
    · exact .failure
  · exact .failure

/-! ## Lists -/

/-- What is repeated goes on along a way. -/
theorem Reader.Gives.ways {R : Input → List Node → Input → Prop} {item : Reader (Option α)}
    (g : α → List Node) (hi : R i [] i) (hof : ∀ {l j}, R i l j → j.Of s)
    (happend : ∀ {l l' j k}, R i l j → R j l' k → R i (l ++ l') k)
    (hitem : ∀ j, j.Of s → item.Gives j fun o k => R j ((o.map g).getD []) k) :
    (Reader.many item).Gives i fun items j => R i (items.flatMap g) j :=
  .many hi fun _ j hj => (hitem j (hof hj)).mono fun _ _ hk => happend hj hk

theorem many_passes {item : Reader (Option Node)} (hi : i.Of s)
    (hitem : ∀ j, j.Of s → item.Gives j fun o k => Passes s j o.toList k) :
    (Reader.many item).Gives i fun items j => Passes s i items j := by
  refine (Reader.Gives.ways (fun n => [n]) (.refl hi) Passes.of Passes.append
    fun j hj => (hitem j hj).mono fun o k ho => ?_).mono fun items j h => ?_
  · cases o <;> exact ho
  · rwa [List.flatMap_singleton'] at h

theorem manyLists_pass {item : Reader (Option (List Node))} (hi : i.Of s)
    (hitem : ∀ j, j.Of s → item.Gives j fun o k => Passes s j (o.getD []) k) :
    (Reader.many item).Gives i fun items j => Passes s i items.flatten j := by
  refine (Reader.Gives.ways id (.refl hi) Passes.of Passes.append fun j hj =>
    (hitem j hj).mono fun o k ho => ?_).mono fun items j h => ?_
  · rwa [Option.map_id]
  · rwa [List.flatMap_id] at h

theorem manyLists_cross {item : Reader (Option (List Node))} (hi : i.Of s)
    (hitem : ∀ j, j.Of s → item.Gives j fun o k => Crosses s j (o.getD []) k) :
    (Reader.many item).Gives i fun items j => Crosses s i items.flatten j := by
  refine (Reader.Gives.ways id (.refl hi) Crosses.of Crosses.append fun j hj =>
    (hitem j hj).mono fun o k ho => ?_).mono fun items j h => ?_
  · rwa [Option.map_id]
  · rwa [List.flatMap_id] at h

end DocSignature.JavaScript
