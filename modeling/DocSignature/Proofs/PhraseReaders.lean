import DocSignature.JavaScript.Element
import DocSignature.Proofs.PatternReaders

/-!
# What the readers of phrases give

The readers of phrases call each other through a `Grammar`. If each phrase that it gives is read
(`Grammar.Sound`), so is what is made of phrases : lists, blocks and functions, and markup elements.
There is one lemma for each reader. Where a reader is given an offset with the nodes that stand in
front, the way from there goes through them.
-/

namespace DocSignature.JavaScript

variable {s : List Char} {i i₀ j : Input} {n : Node} {l : List Node} {kind : String} {β : Type}
  {Q : β → Input → Prop}

/-- Each phrase is read. -/
def Grammar.Sound (s : List Char) (read : Grammar) : Prop :=
  ∀ phrase i, i.Of s → (read phrase).Gives i (Reads s i)

theorem gives_placeEnded_bind {place : Place} {f : Bool → Reader β} (h : ∀ b, (f b).Gives i Q) :
    (place.ended >>= f).Gives i Q := by
  unfold Place.ended
  split
  · rw [gives_ended_bind]
    exact h _
  · exact (gives_step fun _ => rfl).mpr (h false)

/-! ## Lists -/

theorem filterMap_id_eq_flatMap {α : Type} (slots : List (Option α)) :
    slots.filterMap id = slots.flatMap Option.toList := by
  induction slots with
  | nil => rfl
  | cons slot rest ih =>
    rw [List.filterMap_cons, List.flatMap_cons, ih]
    cases slot <;> rfl

/-- The slots of a list are passed up to the closing mark. What is in them is named and no comment.
-/
theorem slotsOf_takes {close : String} {item : Reader Node} (hclose : close ≠ "")
    (hitem : ∀ j, j.Of s → item.Gives j (Reads s j)) (hi : i.Of s) :
    (slotsOf close item).Gives i fun slots j => Takes s i (slots.filterMap id) j ∧
      ∀ n ∈ slots.filterMap id, n.named = true ∧ n.kind ≠ "comment" := by
  unfold slotsOf
  extract_lets slot
  have hslot (j : Input) (hj : j.Of s) : slot.Gives j fun o k => Passes s j o.toList k ∧
      ∀ n ∈ o.toList, n.named = true ∧ n.kind ≠ "comment" := by
    refine (skipPageComments_passes hj).bind fun _ k hk => ?_
    rw [gives_sees_bind, gives_sees_bind]
    refine .ite (fun _ => gives_pure.mpr ⟨hk, by simp⟩) fun _ => ?_
    refine (hitem k hk.of).bind fun n m hn => gives_pure.mpr ⟨hk.append hn.toPasses, ?_⟩
    simpa using ⟨hn.named, hn.kind⟩
  refine (hslot i hi).bind fun first i₁ ⟨hfirst, hshown⟩ => ?_
  refine (Reader.Gives.ways (s := s) Option.toList (R := fun i l j => Passes s i l j ∧
    ∀ n ∈ l, n.named = true ∧ n.kind ≠ "comment") ⟨.refl hfirst.of, nofun⟩ (·.1.of)
    (fun h h' => ⟨h.1.append h'.1, List.forall_mem_append.mpr ⟨h.2, h'.2⟩⟩)
    fun k hk => ?_).bind fun rest j ⟨hrest, hshowns⟩ => ?_
  · refine .ite_bind (tries_takes (by decide) hk) (fun m hm => ?_)
      (gives_pure.mpr ⟨.refl hk, nofun⟩)
    exact (hslot m hm.of).bind fun o q ho => gives_pure.mpr ⟨(hm.append ho.1).toPasses, ho.2⟩
  · refine (mark_takes hclose hrest.of).bind fun _ k hk => gives_pure.mpr ?_
    rw [filterMap_id_eq_flatMap, List.flatMap_cons]
    exact ⟨hfirst.takes (hrest.upTo hk), List.forall_mem_append.mpr ⟨hshown, hshowns⟩⟩

section Phrases

variable {read : Grammar} (hread : read.Sound s) (hi : i.Of s)

include hread hi

theorem spreadable_reads : (spreadable read).Gives i (Reads s i) := by
  rw [spreadable, gives_start_bind]
  refine .ite_bind (tries_takes (by decide) hi) (fun j hj => ?_) (hread _ i hi)
  refine (hread _ j hj.of).bind fun e k he => ?_
  exact node_reads (by decide) (hj.append he.toPasses)

theorem slots_takes {close : String} (hclose : close ≠ "") :
    (slots read close).Gives i fun slots j => Takes s i (slots.filterMap id) j ∧
      ∀ n ∈ slots.filterMap id, n.named = true ∧ n.kind ≠ "comment" :=
  slotsOf_takes hclose (fun _ hj => spreadable_reads hread hj) hi

theorem expressions_reads (place : Place) : (expressions read place).Gives i (Reads s i) := by
  refine (hread _ i hi).bind fun first i₁ hfirst => ?_
  refine (many_passes hfirst.of fun j hj => ?_).bind fun rest j hrest => ?_
  · refine gives_placeEnded_bind fun _ => .ite (fun _ => gives_pure.mpr (.refl hj)) fun _ => ?_
    refine .ite_bind (tries_takes (by decide) hj) (fun k hk => ?_) (gives_pure.mpr (.refl hj))
    exact (hread _ k hk.of).bind fun e m he => gives_pure.mpr (hk.append he.toPasses).toPasses
  · refine .ite (fun hempty => gives_pure.mpr ?_) fun _ => ?_
    · rw [List.isEmpty_iff.mp hempty] at hrest
      exact hfirst.on hrest
    · exact (node_grows (by decide) hfirst.before hrest).mono fun _ _ h => hfirst.grows hi h

theorem parenthesized_reads : (parenthesized read).Gives i (Reads s i) := by
  rw [parenthesized, gives_start_bind]
  refine (mark_takes (by decide) hi).bind fun _ i₁ hopen => ?_
  refine (expressions_reads hread hopen.of {}).bind fun e i₂ he => ?_
  refine (mark_takes (by decide) he.of).bind fun _ j hclose => ?_
  exact parentheses_read (hopen.append (he.append hclose.toPasses).toPasses) he.named he.kind

theorem arguments_reads : (arguments read).Gives i (Reads s i) := by
  rw [arguments, gives_start_bind]
  refine (mark_takes (by decide) hi).bind fun _ i₁ hopen => ?_
  refine (slots_takes hread hopen.of (by decide)).bind fun items j ⟨hitems, _⟩ => ?_
  exact node_reads (by decide) (hopen.append hitems.toPasses)

theorem array_reads : (array read).Gives i (Reads s i) := by
  rw [array, gives_start_bind]
  refine (mark_takes (by decide) hi).bind fun _ i₁ hopen => ?_
  refine (slots_takes hread hopen.of (by decide)).bind fun items j ⟨hitems, _⟩ => ?_
  exact node_reads (by decide) (hopen.append hitems.toPasses)

/-! ## Blocks and functions -/

theorem statements_pass : (statements read).Gives i fun l j => Passes s i l j := by
  refine (Reader.Gives.iterate (P := fun x j => Passes s i x.1.reverse j) (.refl hi)
    fun ⟨items, closed⟩ j hitems => ?_).bind fun ⟨items, _⟩ j hitems => gives_pure.mpr hitems
  have hrest : Reader.Gives (do
      skipPageComments
      let i ← here
      if i.rest.isEmpty || i.rest.head? == some '}' ||
          ["case", "default"].contains (← peekWord) then
        return none
      else
        let n ← read .statement
        return some (n :: items, (i.before (← get).offset).getLast? == some '}')) j
        fun o k => Passes s i (o.getD (items, closed)).1.reverse k := by
    refine (skipPageComments_passes hitems.of).bind fun _ k hk => ?_
    have hskip : Passes s i items.reverse k := hitems.on hk
    rw [gives_here_bind, gives_peekWord_bind]
    refine .ite (fun _ => gives_pure.mpr hskip) fun _ => ?_
    refine (hread _ k hk.of).bind fun n m hn => ?_
    rw [gives_get_bind, gives_pure, Option.getD_some, List.reverse_cons]
    exact hskip.append hn.toPasses
  dsimp only
  rw [gives_ended_bind]
  refine .ite (fun _ => ?_) fun _ => hrest
  rw [gives_peek_bind, gives_guard_bind]
  exact fun _ => hrest

theorem block_reads : (block read).Gives i (Reads s i) := by
  rw [block, gives_start_bind]
  refine (mark_takes (by decide) hi).bind fun _ i₁ hopen => ?_
  refine (statements_pass hread hopen.of).bind fun body i₂ hbody => ?_
  refine (mark_takes (by decide) hbody.of).bind fun _ j hclose => ?_
  exact node_reads (by decide) (hopen.append (hbody.on hclose.toPasses))

theorem parameters_read : (parameters read).Gives i (Reads s i) := by
  rw [parameters, gives_start_bind]
  refine (mark_takes (by decide) hi).bind fun _ i₁ hopen => ?_
  refine (slots_takes hread hopen.of (by decide)).bind fun slots i₂ ⟨hslots, _⟩ => ?_
  refine (asParameters_takes hslots).bind ?_
  rintro ps _ ⟨rfl, hps⟩
  exact node_reads (by decide) (hopen.append hps.toPasses)

/-- A function is read from where it starts, if what stands in front was passed. -/
theorem functionBehind_reads {front : List Node} (hkind : Plain kind)
    (hfront : Takes s i₀ front i) :
    (functionBehind read kind i₀.next.offset front).Gives i (Reads s i₀) := by
  refine (parameters_read hread hi).bind fun params i₁ hparams => ?_
  refine (block_reads hread hparams.of).bind fun body j hbody => ?_
  exact node_reads hkind (hfront.append ((hparams.fill "parameters").append
    (hbody.fill "body").toPasses).toPasses)

theorem functionExpression_reads (hfront : Passes s i₀ [] i) :
    (functionExpression read i₀.next.offset).Gives i (Reads s i₀) := by
  refine (word_takes (by decide) hi).bind fun _ i₁ hword => ?_
  refine (tries_passes (by decide) hword.of).bind fun star i₂ hstar => ?_
  have hway : Takes s i₀ [] i₂ := hfront.takes (hword.append hstar)
  have hkind : Plain (if star then "generator_function" else "function_expression") := by
    cases star <;> decide
  dsimp only
  rw [gives_sees_bind]
  refine .ite (fun _ => functionBehind_reads hread hway.of hkind hway) fun _ => ?_
  refine (name_reads (by decide) hway.of).bind fun name i₃ hname => ?_
  exact functionBehind_reads hread hname.of hkind
    (hway.append (hname.fill "name").toPasses)

theorem functionDeclaration_reads (hfront : Passes s i₀ [] i) :
    (functionDeclaration read i₀.next.offset).Gives i (Reads s i₀) := by
  refine (word_takes (by decide) hi).bind fun _ i₁ hword => ?_
  refine (tries_passes (by decide) hword.of).bind fun star i₂ hstar => ?_
  have hway : Takes s i₀ [] i₂ := hfront.takes (hword.append hstar)
  have hkind : Plain (if star then "generator_function_declaration" else "function_declaration") :=
    by cases star <;> decide
  refine (name_reads (by decide) hway.of).bind fun name i₃ hname => ?_
  exact functionBehind_reads hread hname.of hkind
    (hway.append (hname.fill "name").toPasses)

/-! ## Markup elements -/

omit hread in
theorem quotedValue_reads : quotedValue.Gives i (Reads s i) := by
  rw [quotedValue, gives_peek_bind]
  split
  · next quote t hrest =>
    rw [gives_guard_bind]
    intro _
    split
    · exact leaf_reads (by decide) hi (by omega) (by simp [hrest])
    · exact .failure
  · exact .failure

omit hread in
theorem tagWord_takes : tagWord.Gives i fun _ j => Takes s i [] j := by
  rw [tagWord, gives_peek_bind]
  dsimp only
  rw [gives_guard_bind]
  intro hword
  rintro _ _ _ ⟨⟩
  have hne : wordOf i.next.rest ≠ [] := by simpa using hword
  have hpos := List.length_pos_iff.mpr hne
  refine .drop hi (by omega) fun hnil => ?_
  rw [hnil] at hne
  exact hne rfl

omit hread in
theorem tagName_takes : tagName.Gives i fun _ j => Takes s i [] j := by
  rw [tagName, gives_peekWord_bind, gives_guard_bind]
  intro _
  refine (tagWord_takes hi).bind fun _ i₁ hword => ?_
  refine .ite_bind (tries_takes (by decide) hword.of) (fun i₂ hcolon => ?_) ?_
  · exact (tagWord_takes hcolon.of).mono fun _ _ h =>
      hword.append (hcolon.append h.toPasses).toPasses
  · refine (many_passes hword.of fun j hj => ?_).bind fun _ j h =>
      gives_pure.mpr (hword.append h.forget)
    refine .ite_bind (tries_takes (by decide) hj) (fun k hk => ?_) (gives_pure.mpr (.refl hj))
    exact (anyWord_reads (by decide) hk.of).bind fun n m hn =>
      gives_pure.mpr (hk.append hn.toPasses).toPasses

theorem inBraces_reads : (inBraces read).Gives i (Reads s i) := by
  rw [inBraces, gives_start_bind]
  refine (mark_takes (by decide) hi).bind fun _ i₁ hopen => ?_
  have hclose {items : List Node} {j : Input} (hitems : Passes s i₁ items j) :
      Reader.Gives (do
        mark "\x7d"
        Reader.node "jsx_expression" i.next.offset items) j (Reads s i) :=
    (mark_takes (by decide) hitems.of).bind fun _ k hk =>
      node_reads (by decide) (hopen.append (hitems.on hk.toPasses))
  rw [gives_sees_bind]
  refine .ite (fun _ => hclose (.refl hopen.of)) fun _ => .ite (fun _ => ?_) fun _ => ?_
  · exact (spreadable_reads hread hopen.of).bind fun e j he => hclose he.toPasses
  · exact (expressions_reads hread hopen.of {}).bind fun e j he => hclose he.toPasses

theorem attributeValue_reads : (attributeValue read).Gives i (Reads s i) := by
  rw [attributeValue, gives_peek_bind]
  split
  · exact inBraces_reads hread hi
  · exact hread _ i hi
  · exact quotedValue_reads hi

/-- What follows the name of an attribute. -/
theorem attributeBehind_reads (h : Takes s i₀ [] i) : Reader.Gives (do
      if ← tries "=" then
        return some (← Reader.node "jsx_attribute" i₀.next.offset [← attributeValue read])
      else return some (← Reader.node "jsx_attribute" i₀.next.offset []))
    i fun o j => Passes s i₀ o.toList j := by
  refine .ite_bind (tries_takes (by decide) hi) (fun i₁ hmark => ?_) ?_
  · refine (attributeValue_reads hread hmark.of).bind fun value j hvalue => ?_
    exact (node_reads (by decide) (h.append (hmark.append hvalue.toPasses).toPasses)).bind
      fun n k hn => gives_pure.mpr hn.toPasses
  · exact (node_reads (by decide) h).bind fun n k hn => gives_pure.mpr hn.toPasses

theorem attributes_pass : (attributes read).Gives i fun l j => Passes s i l j := by
  refine many_passes hi fun j hj => ?_
  rw [gives_sees_bind]
  refine .ite (fun _ => ?_) fun _ => ?_
  · exact (inBraces_reads hread hj).bind fun n k hn => gives_pure.mpr hn.toPasses
  rw [gives_peekWord_bind]
  refine .ite (fun _ => gives_pure.mpr (.refl hj)) fun _ => ?_
  rw [gives_start_bind]
  refine (tagWord_takes hj).bind fun _ k hword => ?_
  refine .ite_bind (tries_takes (by decide) hword.of) (fun m hcolon => ?_) ?_
  · refine (tagWord_takes hcolon.of).bind fun _ q hspace => ?_
    exact attributeBehind_reads hread hspace.of
      (hword.append (hcolon.append hspace.toPasses).toPasses)
  · exact attributeBehind_reads hread hword.of hword

theorem content_crosses : (content read).Gives i fun l j => Crosses s i l j := by
  refine (manyLists_cross hi fun j hj => ?_).bind fun items k h => gives_pure.mpr h
  rw [gives_get_bind]
  split
  · exact .failure
  · exact gives_pure.mpr (.refl hj)
  · exact (hread _ j hj).bind fun n k hn => gives_pure.mpr (hn.toPasses.crosses hj)
  · exact (inBraces_reads hread hj).bind fun n k hn => gives_pure.mpr (hn.toPasses.crosses hj)
  · split
    · exact (skip_crosses _ hj).bind fun _ k hk => gives_pure.mpr hk
    · exact .failure
  · dsimp only
    rw [gives_guard_bind]
    exact fun _ => (skip_crosses _ hj).bind fun _ k hk => gives_pure.mpr hk

theorem elementBehind_reads {front : List Node} (hfront : Takes s i₀ front i) :
    (elementBehind read i₀.next.offset front).Gives i (Reads s i₀) := by
  refine (content_crosses hread hi).bind fun items i₁ hitems => ?_
  refine (mark_takes (by decide) hitems.of).bind fun _ i₂ hmark => ?_
  have hway := hfront.crosses hitems
  have hclose {j : Input} (hname : Passes s i₂ [] j) : Reader.Gives (do
      mark ">"
      Reader.node "jsx_element" i₀.next.offset (front ++ items)) j (Reads s i₀) :=
    (mark_takes (by decide) hname.of).bind fun _ k hk =>
      node_reads (by decide) (hway.on (hmark.append (hname.append hk.toPasses)).toPasses)
  rw [gives_sees_bind]
  refine .ite (fun _ => hclose (.refl hmark.of)) fun _ => ?_
  exact (tagName_takes hmark.of).bind fun _ j hname => hclose hname.toPasses

theorem element_reads : (element read).Gives i (Reads s i) := by
  rw [element, gives_start_bind]
  refine (mark_takes (by decide) hi).bind fun _ i₁ hopen => ?_
  refine .ite_bind (tries_takes (by decide) hopen.of) (fun j hj => ?_) ?_
  · exact elementBehind_reads hread hj.of (hopen.append hj.toPasses)
  · refine (tagName_takes hopen.of).bind fun _ i₂ hname => ?_
    refine (attributes_pass hread hname.of).bind fun front i₃ hfront => ?_
    have hway := hopen.append (hname.append hfront).toPasses
    refine .ite_bind (tries_takes (by decide) hfront.of) (fun j hj => ?_) ?_
    · exact node_reads (by decide) (hway.on hj.toPasses)
    · refine (mark_takes (by decide) hfront.of).bind fun _ j hclose => ?_
      exact elementBehind_reads hread hclose.of (hway.on hclose.toPasses)

end Phrases

end DocSignature.JavaScript
