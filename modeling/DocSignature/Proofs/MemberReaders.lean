import DocSignature.JavaScript.Property
import DocSignature.Proofs.PhraseReaders

/-!
# What the readers of members give

The members of objects and classes, with their names, modifiers and decorators, and what holds them.
-/

namespace DocSignature.JavaScript

variable {s : List Char} {i i₀ j : Input} {n : Node} {l front : List Node} {kind : String}

section Members

variable {read : Grammar} (hread : read.Sound s) (hi : i.Of s)

include hread hi

/-! ## Names and modifiers -/

theorem propertyName_reads : (propertyName read).Gives i (Reads s i) := by
  rw [propertyName, gives_peek_bind]
  refine .ite (fun _ => ?_) fun _ => .ite (fun _ => privateName_reads hi) fun _ =>
    .ite (fun _ => string_reads hi) fun _ => .ite (fun _ => number_reads hi) fun _ =>
    anyWord_reads (by decide) hi
  rw [gives_start_bind]
  refine (mark_takes (by decide) hi).bind fun _ i₁ hopen => ?_
  refine (hread _ i₁ hopen.of).bind fun e i₂ he => ?_
  refine (mark_takes (by decide) he.of).bind fun _ j hclose => ?_
  exact node_reads (by decide) (hopen.append (he.on hclose.toPasses).toPasses)

omit hread in
theorem triesModifier_passes (inBody : Bool) (words : List String) (star : Bool) :
    (triesModifier inBody words star).Gives i fun _ j => Passes s i [] j := by
  rw [triesModifier, gives_peekWord_bind, gives_here_bind]
  refine .ite (fun _ => ?_) fun _ => gives_pure.mpr (.refl hi)
  rintro _ _ _ ⟨⟩
  exact .drop hi _

omit hread in
theorem modifiers_pass (inBody : Bool) :
    (modifiers inBody).Gives i fun _ j => Passes s i [] j := by
  refine (triesModifier_passes hi _ _ _).bind fun _ i₁ hstatic => ?_
  refine (triesModifier_passes hstatic.of _ _ _).bind fun _ i₂ hasync => ?_
  have hway := hstatic.append hasync
  refine .ite_bind (tries_takes (by decide) hasync.of) (fun j hj => ?_) ?_
  · exact gives_pure.mpr (hway.append hj.toPasses)
  · exact (triesModifier_passes hasync.of _ _ _).bind fun _ j hj =>
      gives_pure.mpr (hway.append hj)

/-! ## Decorators -/

theorem decorator_reads : (decorator read).Gives i (Reads s i) := by
  rw [decorator, gives_start_bind]
  refine (mark_takes (by decide) hi).bind fun _ i₁ hmark => ?_
  refine (name_reads (by decide) hmark.of).bind fun _ i₂ hname => ?_
  refine (many_passes hname.of fun j hj => ?_).bind fun _ i₃ hmembers => ?_
  · refine .ite_bind (tries_takes (by decide) hj) (fun k hk => ?_) (gives_pure.mpr (.refl hj))
    exact (anyWord_reads (by decide) hk.of).bind fun n m hn =>
      gives_pure.mpr (hk.append hn.toPasses).toPasses
  · have hway := hmark.append (hname.toPasses.append hmembers).forget
    rw [gives_sees_bind]
    refine .ite (fun _ => ?_) fun _ => node_reads (by decide) hway
    exact (arguments_reads hread hmembers.of).bind fun args j hargs =>
      node_reads (by decide) (hway.append hargs.toPasses)

theorem decorators_pass : (decorators read).Gives i fun l j => Passes s i l j := by
  refine many_passes hi fun j hj => ?_
  rw [gives_sees_bind]
  refine .ite (fun _ => ?_) fun _ => gives_pure.mpr (.refl hj)
  exact (decorator_reads hread hj).bind fun n k hn => gives_pure.mpr hn.toPasses

/-! ## Objects -/

theorem memberDefault_reads {left : Node} (hleft : Takes s i₀ [fill "left" left] i) :
    (memberDefault read i₀.next.offset left).Gives i (Reads s i₀) := by
  refine (mark_takes (by decide) hi).bind fun _ i₁ hmark => ?_
  refine (hread _ i₁ hmark.of).bind fun right j hright => ?_
  exact node_reads (by decide)
    (hleft.append (hmark.append (hright.fill "right").toPasses).toPasses)

theorem memberBehind_reads {key : Node} (methodOnly : Bool) (hkey : Reads s i₀ key i) :
    (memberBehind read i₀.next.offset methodOnly key).Gives i (Reads s i₀) := by
  rw [memberBehind, gives_sees_bind]
  refine .ite (fun _ => ?_) fun _ => ?_
  · exact functionBehind_reads hread hi (by decide) (hkey.fill "name").toTakes
  · rw [gives_guard_bind]
    intro _
    refine (mark_takes (by decide) hi).bind fun _ i₁ hmark => ?_
    refine (hread _ i₁ hmark.of).bind fun value j hvalue => ?_
    exact node_reads (by decide) ((hkey.fill "key").toTakes.append
      (hmark.append (hvalue.fill "value").toPasses).toPasses)

theorem bracketMember_reads : (bracketMember read).Gives i (Reads s i) := by
  rw [bracketMember, gives_start_bind]
  refine (mark_takes (by decide) hi).bind fun _ i₁ hopen => ?_
  refine (slots_takes hread hopen.of (by decide)).bind fun items i₂ ⟨hitems, _⟩ => ?_
  have hway := hopen.append hitems.toPasses
  refine gives_seesEquals_bind fun _ => .ite (fun _ => ?_) fun _ => ?_
  · refine (node_reads (by decide) hway).bind fun left i₃ hleft => ?_
    refine (asDestructuring_reads hleft).bind ?_
    rintro p _ ⟨rfl, hp⟩
    exact memberDefault_reads hread hp.of (hp.fill "left").toTakes
  · split
    · next e =>
      rw [gives_guard_bind]
      refine fun _ => (node_reads (by decide) hway).bind fun key i₃ hkey => ?_
      exact memberBehind_reads hread hkey.of false hkey
    · exact .failure

theorem namedMember_reads : (namedMember read).Gives i (Reads s i) := by
  rw [namedMember, gives_start_bind]
  refine (decorators_pass hread hi).bind fun _ i₁ hdecorators => ?_
  refine (modifiers_pass hdecorators.of false).bind fun methodOnly i₂ hmodifiers => ?_
  refine (propertyName_reads hread hmodifiers.of).bind fun key i₃ hname => ?_
  have hkey : Reads s i key i₃ := hname.behind (hdecorators.forget.append hmodifiers)
  have hkind {kind : String} (h : Plain kind) : Reads s i { key with kind } i₃ :=
    hkey.replace (sound_withKind h hkey.before.sound) rfl rfl hkey.named h.ne_comment
  rw [gives_sees_bind, gives_sees_bind]
  refine .ite (fun _ => memberBehind_reads hread hkey.of _ hkey) fun _ => ?_
  refine gives_seesEquals_bind fun _ => .ite (fun _ => ?_) fun _ => ?_
  · exact memberDefault_reads hread hkey.of ((hkind (by decide)).fill "left").toTakes
  · exact gives_pure.mpr (hkind (by decide))

theorem object_reads : (object read).Gives i (Reads s i) := by
  rw [object, gives_start_bind]
  refine (mark_takes (by decide) hi).bind fun _ i₁ hopen => ?_
  refine (slotsOf_takes (by decide) (fun j hj => ?_) hopen.of).bind fun items i₂ ⟨hitems, _⟩ => ?_
  · rw [gives_peek_bind]
    split
    · exact spreadable_reads hread hj
    · exact bracketMember_reads hread hj
    · rw [gives_start_bind]
      refine (hread _ j hj).bind fun e k he => (asDestructuring_reads he).bind ?_
      rintro p _ ⟨rfl, hp⟩
      exact memberDefault_reads hread hp.of (hp.fill "left").toTakes
    · exact namedMember_reads hread hj
  · refine (node_reads (by decide) (hopen.append hitems.toPasses)).bind fun n j hn => ?_
    have hsame : (objectOf n).start = n.start ∧ (objectOf n).stop = n.stop ∧
        (objectOf n).named = n.named ∧ (objectOf n).kind = n.kind := by
      unfold objectOf
      split <;> exact ⟨rfl, rfl, rfl, rfl⟩
    obtain ⟨hstart, hstop, hnamed, hkind⟩ := hsame
    exact gives_pure.mpr (hn.replace (sound_objectOf hn.before.sound) hstart hstop
      (hnamed.trans hn.named) (hkind ▸ hn.kind))

/-! ## Classes -/

theorem classMember_reads : (classMember read).Gives i (Reads s i) := by
  rw [classMember, gives_start_bind]
  refine (decorators_pass hread hi).bind fun front i₁ hfront => ?_
  rw [gives_peekWord_bind]
  refine gives_peekBehindWord_bind fun _ => .ite (fun _ => ?_) fun _ => ?_
  · refine (word_takes (by decide) hfront.of).bind fun _ i₂ hword => ?_
    refine (block_reads hread hword.of).bind fun body j hbody => ?_
    exact node_reads (by decide) ((hfront.upTo hword).append (hbody.fill "body").toPasses)
  · refine (modifiers_pass hfront.of true).bind fun methodOnly i₂ hmodifiers => ?_
    refine (propertyName_reads hread hmodifiers.of).bind fun key i₃ hname => ?_
    have hkey : Reads s i₁ key i₃ := hname.behind hmodifiers
    rw [gives_ended_bind, gives_sees_bind]
    refine .ite (fun _ => ?_) fun _ => ?_
    · exact functionBehind_reads hread hkey.of (by decide) (hfront.takes (hkey.fill "name").toTakes)
    rw [gives_guard_bind]
    intro _
    have hfield {value : List Node} {j : Input} (hvalue : Passes s i₃ value j) : Reader.Gives (do
        let field ← Reader.node "field_definition" i.next.offset
          (front ++ fill "property" key :: value)
        semicolon !value.isEmpty
        return field) j (Reads s i) := by
      refine (node_reads (by decide) (hfront.takes
        ((hkey.fill "property").toTakes.append hvalue))).bind fun field k hn => ?_
      exact (semicolon_passes _ hn.of).bind fun _ m hm => gives_pure.mpr (hn.on hm)
    rw [gives_ended_bind]
    refine (tries_passes (by decide) hkey.of).bind fun _ i₄ hmark => ?_
    refine .ite (fun _ => ?_) fun _ => hfield hmark
    exact (hread _ i₄ hmark.of).bind fun value j hvalue =>
      hfield (hmark.append (hvalue.fill "value").toPasses)

theorem classBody_reads : (classBody read).Gives i (Reads s i) := by
  rw [classBody, gives_start_bind]
  refine (mark_takes (by decide) hi).bind fun _ i₁ hopen => ?_
  refine (manyLists_pass hopen.of fun j hj => ?_).bind fun items i₂ hitems => ?_
  · refine (skipPageComments_passes hj).bind fun _ k hk => ?_
    rw [gives_sees_bind]
    refine .ite (fun _ => gives_pure.mpr hk) fun _ => ?_
    refine .ite_bind (tries_takes (by decide) hk.of) (fun m hm => ?_) ?_
    · exact gives_pure.mpr (hk.append hm.toPasses)
    · exact (classMember_reads hread hk.of).bind fun n m hn =>
        gives_pure.mpr (hk.append hn.toPasses)
  · refine (mark_takes (by decide) hitems.of).bind fun _ j hclose => ?_
    exact node_reads (by decide) (hopen.append (hitems.on hclose.toPasses))

theorem classBehind_reads (hkind : Plain kind) (hfront : Passes s i₀ front i) :
    (classBehind read kind i₀.next.offset front).Gives i (Reads s i₀) := by
  refine (word_takes (by decide) hi).bind fun _ i₁ hword => ?_
  have hbody {named heritage : List Node} {j : Input}
      (h : Takes s i₀ (front ++ named ++ heritage) j) : Reader.Gives (do
        let body ← classBody read
        Reader.node kind i₀.next.offset (front ++ named ++ heritage ++ [fill "body" body])) j
        (Reads s i₀) :=
    (classBody_reads hread h.of).bind fun body k hbody =>
      node_reads hkind (h.append (hbody.fill "body").toPasses)
  have hheritage {named : List Node} {j : Input} (h : Takes s i₀ (front ++ named) j) :
      Reader.Gives (do
        let heritage ← if ← triesWord "extends" then pure [← read (.expression {})] else pure []
        let body ← classBody read
        Reader.node kind i₀.next.offset (front ++ named ++ heritage ++ [fill "body" body])) j
        (Reads s i₀) := by
    refine .ite_bind (triesWord_takes (by decide) h.of) (fun k hk => ?_) ?_
    · exact (hread _ k hk.of).bind fun e m he =>
        hbody (h.append (hk.append he.toPasses).toPasses)
    · exact hbody (h.append (.refl h.of))
  rw [gives_peekWord_bind]
  refine .ite (fun _ => hheritage ((hfront.upTo hword).append (.refl hword.of))) fun _ => ?_
  exact (name_reads (by decide) hword.of).bind fun name j hname =>
    hheritage ((hfront.upTo hword).append (hname.fill "name").toPasses)

end Members

end DocSignature.JavaScript
