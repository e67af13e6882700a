import DocSignature.JavaScript.Expression
import DocSignature.Proofs.MemberReaders

/-!
# What the readers of expressions give

An operand starts with a primary expression (`primary_reads`). What follows that makes a node that
starts with it, so the node grows (`followed_grows`) from step to step, and so do the nodes of
assignments, chains and conditions. Each of them is read from where its first node is, up to whole
expressions (`expression_reads`).
-/

namespace DocSignature.JavaScript

variable {s : List Char} {i i₀ i₁ j : Input} {n : Node} {β : Type} {Q : β → Input → Prop}

section Expressions

variable {read : Grammar} (hread : read.Sound s) (hi : i.Of s)

include hread hi

/-! ## Arrow functions -/

theorem objectFirst_reads (place : Place) : (objectFirst read place).Gives i (Reads s i) := by
  refine (expressions_reads hread hi place).bind fun e j he => ?_
  rw [gives_guard_bind]
  exact fun _ => gives_pure.mpr he

omit hread hi in
theorem braces_give {ofObject ofBlock : Reader Node} {P : Node → Input → Prop}
    (h : ofObject.Gives i P) (h' : ofBlock.Gives i P) : (braces ofObject ofBlock).Gives i P := by
  rw [braces, gives_peek_bind]
  exact .ite (fun _ => h) fun _ => .ite (fun _ => h.orElse h') fun _ => h'

theorem arrowBody_reads (place : Place) : (arrowBody read place).Gives i (Reads s i) := by
  rw [arrowBody, gives_sees_bind]
  refine .ite (fun _ => braces_give ?_ (block_reads hread hi)) fun _ => hread _ i hi
  refine (hread _ i hi).bind fun e j he => ?_
  rw [gives_guard_bind]
  exact fun _ => gives_pure.mpr he

/-- An arrow function is read from where its parameters start. -/
theorem arrowBehind_reads {params : Node} (place : Place) (hparams : Takes s i₀ [params] i) :
    (arrowBehind read place i₀.next.offset params).Gives i (Reads s i₀) := by
  refine (mark_takes (by decide) hi).bind fun _ i₁ hmark => ?_
  refine (arrowBody_reads hread hmark.of place).bind fun body j hbody => ?_
  exact node_reads (by decide)
    (hparams.append (hmark.append (hbody.fill "body").toPasses).toPasses)

theorem arrowOfSlots_reads {items : List (Option Node)} (place : Place)
    (hfront : Passes s i₀ [] i₁) (hitems : Takes s i₁ (items.filterMap id) i) :
    (arrowOfSlots read place i₀.next.offset i₁.next.offset items).Gives i (Reads s i₀) := by
  refine (asParameters_takes hitems).bind ?_
  rintro ps _ ⟨rfl, hps⟩
  refine (node_reads (by decide) hps).bind fun params j hparams => ?_
  exact arrowBehind_reads hread hparams.of place ((hparams.fill "parameters").behind hfront).toTakes

theorem nameOrArrow_reads (place : Place) : (nameOrArrow read place).Gives i (Reads s i) := by
  rw [nameOrArrow, gives_start_bind, gives_peekWord_bind]
  refine .ite (fun h => ?_) fun _ => ?_
  · exact leaf_reads (by decide) hi (by decide) (wordOf_ne_nil (by decide) (eq_of_beq h))
  have hbehind {n : Node} {j : Input} (hn : Reads s i n j) : Reader.Gives (do
      if ← sees "=>" then arrowBehind read place i.next.offset (fill "parameter" n) else return n)
      j (Reads s i) := by
    rw [gives_sees_bind]
    refine .ite (fun _ => ?_) fun _ => gives_pure.mpr hn
    exact arrowBehind_reads hread hn.of place (hn.fill "parameter").toTakes
  rw [gives_peekWord_bind]
  refine .ite (fun _ => ?_) fun _ => ?_
  · exact (anyWord_reads (by decide) hi).bind fun n j hn => hbehind hn
  · exact (name_reads (by decide) hi).bind fun n j hn => hbehind hn

theorem parensOrArrow_reads (place : Place) : (parensOrArrow read place).Gives i (Reads s i) := by
  rw [parensOrArrow, gives_start_bind]
  refine (mark_takes (by decide) hi).bind fun _ i₁ hopen => ?_
  refine (slots_takes hread hopen.of (by decide)).bind fun items i₂ ⟨hitems, hshown⟩ => ?_
  have hway := hopen.append hitems.toPasses
  rw [gives_sees_bind]
  refine .ite (fun _ => arrowOfSlots_reads hread hitems.of place (.refl hi) hway) fun _ => ?_
  split
  · next first rest hmap =>
    rw [gives_guard_bind]
    intro _
    rw [filterMap_of_mapM hmap] at hway hshown
    obtain ⟨hlo, hlt, hhi, hrest⟩ := hway.row.inOrder
    dsimp only
    split
    · next last hlast =>
      -- The sequence ends with its last expression, not where the parentheses do.
      obtain ⟨hbefore, hend, hstop⟩ := hrest.upToLast hlast
      have hrow : Row s first.start last.stop (first :: rest) :=
        ⟨⟨le_rfl, hlt, hend.le, hbefore⟩, hway.row.sound⟩
      have hsound : (Node.make "sequence_expression" first.start last.stop none true false
          (first :: rest)).Sound s :=
        sound_make_of_plain (by decide) hrow (hstop.trans hway.of.offset_le)
      refine parentheses_read ⟨⟨hway.of, hway.offset_le, hway.next_le, ?_⟩, hway.lt⟩ rfl
        (show "sequence_expression" ≠ "comment" by decide)
      exact .singleton hsound hlo (hlt.trans hend) hstop
    · next hnone =>
      obtain rfl := List.getLast?_eq_none_iff.mp hnone
      obtain ⟨hnamed, hkind⟩ := hshown first (by simp)
      exact parentheses_read hway hnamed hkind
  · exact .failure

theorem asyncFirst_reads (place : Place) (hrest : i.next.rest ≠ []) :
    (asyncFirst read place).Gives i (Reads s i) := by
  rw [asyncFirst, gives_here_bind]
  have hword : Passes s i [] (i.next.drop 5) := .drop hi 5
  refine .ite (fun _ => nameOrArrow_reads hread hi place) fun _ => .ite (fun _ => ?_) fun _ =>
    .ite (fun _ => ?_) fun _ => .ite (fun _ => ?_) fun _ => nameOrArrow_reads hread hi place
  · rw [gives_set_bind]
    exact functionExpression_reads hread hword.of hword
  · refine (leaf_reads (by decide) hi (by decide) hrest).bind fun callee i₁ hcallee => ?_
    rw [gives_start_bind]
    refine (mark_takes (by decide) hcallee.of).bind fun _ i₂ hopen => ?_
    refine (slots_takes hread hopen.of (by decide)).bind fun items i₃ ⟨hitems, _⟩ => ?_
    have hway := hopen.append hitems.toPasses
    rw [gives_sees_bind]
    refine .ite (fun _ => ?_) fun _ => ?_
    · exact arrowOfSlots_reads hread hitems.of place hcallee.forget.toPasses hway
    · refine (node_reads (by decide) hway).bind fun args j hargs => ?_
      exact node_reads (by decide)
        ((hcallee.fill "function").append (hargs.fill "arguments").toPasses)
  · rw [gives_set_bind]
    refine (name_reads (by decide) hword.of).bind fun n j hn => ?_
    exact arrowBehind_reads hread hn.of place ((hn.fill "parameter").behind hword).toTakes

/-! ## Templates -/

theorem templatePart_crosses :
    (templatePart? read).Gives i fun o j => Crosses s i (o.getD []) j := by
  rw [templatePart?, gives_get_bind]
  split
  · exact .failure
  · exact gives_pure.mpr (.refl hi)
  · exact (escape_crosses hi).bind fun n j hn => gives_pure.mpr hn
  · next t hrest =>
    rw [gives_get_bind]
    have hskip : ∀ bound, ((Reader.skip 2).run bound).run i = some ((), i.drop 2) := fun _ => rfl
    rw [gives_step hskip]
    have hopen : Crosses s i [] (i.drop 2) := .drop hi 2
    refine (expressions_reads hread hopen.of {}).bind fun e i₁ he => ?_
    refine (mark_takes (by decide) he.of).bind fun _ j hclose => ?_
    have hway := he.toPasses.on hclose.toPasses
    have hlt : i.offset < j.offset := by
      have := Input.offset_lt_drop two_pos (hrest ▸ List.cons_ne_nil _ _)
      have := hway.offset_le
      omega
    exact (node_crosses (by decide) (hopen.append (hway.crosses hopen.of)) hlt).bind
      fun n k hn => gives_pure.mpr hn
  · next c t _ _ _ hrest =>
    refine (part_crosses hi (Nat.succ_pos _) (by simp [hrest]) (by decide) fun h => ?_).bind
      fun n j hn => gives_pure.mpr hn
    exact absurd h (by decide)

theorem template_reads : (template read).Gives i (Reads s i) := by
  rw [template, gives_start_bind]
  refine (mark_takes (by decide) hi).bind fun _ i₁ hopen => ?_
  refine (manyLists_cross hopen.of fun j hj => templatePart_crosses hread hj).bind
    fun parts i₂ hparts => ?_
  refine (skip_crosses 1 hparts.of).bind fun _ j hclose => ?_
  have hway := hopen.crosses (hparts.append hclose)
  rw [List.append_nil] at hway
  exact node_reads (by decide) hway

/-! ## Primary expressions -/

theorem construction_reads : (construction read).Gives i (Reads s i) := by
  rw [construction, gives_start_bind]
  refine (word_takes (by decide) hi).bind fun _ i₁ hword => ?_
  refine .ite_bind (tries_takes (by decide) hword.of) (fun i₂ hmark => ?_) ?_
  · refine (word_takes (by decide) hmark.of).bind fun _ j htarget => ?_
    exact node_reads (by decide) (hword.on (hmark.on htarget.toPasses).toPasses)
  · refine (hread _ i₁ hword.of).bind fun made i₂ hmade => ?_
    have hway := hword.append (hmade.fill "constructor").toPasses
    rw [gives_sees_bind]
    refine .ite (fun _ => ?_) fun _ => node_reads (by decide) hway
    exact (arguments_reads hread hmade.of).bind fun args j hargs =>
      node_reads (by decide) (hway.append (hargs.fill "arguments").toPasses)

omit hread in
theorem importFirst_reads (hrest : i.next.rest ≠ []) : importFirst.Gives i (Reads s i) := by
  refine (leaf_reads (by decide) hi (by decide) hrest).bind fun n i₁ hn => ?_
  rw [gives_peek_bind]
  split
  · exact gives_pure.mpr hn
  · refine .ite (fun _ => ?_) fun _ => gives_pure.mpr hn
    refine (mark_takes (by decide) hn.of).bind fun _ i₂ hmark => ?_
    refine (word_takes (by decide) hmark.of).bind fun _ j hmeta => ?_
    -- The node starts where the word does, and has it not among its children.
    have hway := hn.on (hmark.on hmeta.toPasses).toPasses
    have hlt := hway.before.lt.trans_le hway.before.le
    rintro _ _ _ ⟨⟩
    refine ⟨⟨⟨hway.of, hway.offset_le, hway.next_le, .singleton ?_ hn.start_le hlt le_rfl⟩,
      hway.lt⟩, rfl, show "meta_property" ≠ "comment" by decide⟩
    exact sound_make_of_plain (by decide) .nil hway.of.offset_le
  · exact .failure

theorem primary_reads (place : Place) : (primary read place).Gives i (Reads s i) := by
  rw [primary, gives_peek_bind]
  refine .ite (fun _ => number_reads hi) fun _ => ?_
  split
  · exact parensOrArrow_reads hread hi place
  · exact array_reads hread hi
  · exact hread _ i hi
  · exact template_reads hread hi
  · exact string_reads hi
  · exact string_reads hi
  · exact regex_reads hi
  · exact hread _ i hi
  · rw [gives_start_bind]
    refine (decorators_pass hread hi).bind fun front j hfront => ?_
    exact classBehind_reads hread hfront.of (by decide) hfront
  · have hkeyword {w kind : String} {k : ℕ} (hkind : Plain kind) (hk : 0 < k) (hw : w ≠ "")
        (h : String.ofList (wordOf i.next.rest) = w) : (leaf kind k).Gives i (Reads s i) :=
      leaf_reads hkind hi hk (wordOf_ne_nil hw h)
    split
    · rw [gives_start_bind]
      exact functionExpression_reads hread hi (.refl hi)
    · rw [gives_start_bind]
      exact classBehind_reads hread hi (by decide) (.refl hi)
    · next h => exact hkeyword (by decide) (by decide) (by decide) h
    · next h => exact hkeyword (by decide) (by decide) (by decide) h
    · next h => exact hkeyword (by decide) (by decide) (by decide) h
    · next h => exact hkeyword (by decide) (by decide) (by decide) h
    · next h => exact hkeyword (by decide) (by decide) (by decide) h
    · exact construction_reads hread hi
    · next h => exact importFirst_reads hi (wordOf_ne_nil (by decide) h)
    · next h => exact asyncFirst_reads hread hi place (wordOf_ne_nil (by decide) h)
    · exact nameOrArrow_reads hread hi place

/-! ## What follows a primary expression -/

section Follow

variable (hn : Before s n i₀) (hway : Passes s i₀ [] i)

include hn hway

omit hread in
theorem memberBehindMark_grows : (memberBehindMark n).Gives i (Grows s n.start i₀) := by
  have hgrows {p : Node} {j : Input} (hp : Reads s i p j) :
      (Reader.node "member_expression" n.start [fill "object" n, fill "property" p]).Gives j
        (Grows s n.start i₀) :=
    node_grows (by decide) (hn.fill "object") (hway.append (hp.fill "property").toPasses)
  rw [memberBehindMark, gives_sees_bind]
  refine .ite (fun _ => ?_) fun _ => ?_
  · exact (privateName_reads hi).bind fun p j hp => hgrows hp
  · exact (anyWord_reads (by decide) hi).bind fun p j hp => hgrows hp

theorem subscript_grows : (subscript read n).Gives i (Grows s n.start i₀) := by
  refine (mark_takes (by decide) hi).bind fun _ i₁ hopen => ?_
  refine (expressions_reads hread hopen.of {}).bind fun index i₂ hindex => ?_
  refine (mark_takes (by decide) hindex.of).bind fun _ j hclose => ?_
  exact node_grows (by decide) (hn.fill "object")
    (hway.append (hopen.append ((hindex.fill "index").on hclose.toPasses).toPasses).toPasses)

theorem call_grows : (call read n).Gives i (Grows s n.start i₀) := by
  refine (arguments_reads hread hi).bind fun args j hargs => ?_
  exact node_grows (by decide) (hn.fill "function")
    (hway.append (hargs.fill "arguments").toPasses)

theorem tagged_grows : (tagged read n).Gives i (Grows s n.start i₀) := by
  refine (template_reads hread hi).bind fun t j ht => ?_
  exact node_grows (by decide) (hn.fill "function") (hway.append (ht.fill "arguments").toPasses)

end Follow

theorem followed_grows (whole : Bool) (place : Place) (hn : Before s n i) :
    (followed? read whole place n).Gives i fun o j => Grows s n.start i (o.getD n) j := by
  have hsome {r : Reader Node} {j : Input} (h : r.Gives j (Grows s n.start i)) : Reader.Gives
      (do return some (← r)) j fun o k => Grows s n.start i (o.getD n) k :=
    h.bind fun m k hm => gives_pure.mpr hm
  have hnone : Reader.Gives (pure none) i fun o k => Grows s n.start i (o.getD n) k :=
    gives_pure.mpr (hn.grows (.refl hi))
  have hhere := Passes.refl hi
  refine gives_placeEnded_bind fun _ => .ite (fun _ => hnone) fun _ => ?_
  rw [gives_peek_bind]
  split
  · refine (mark_takes (by decide) hi).bind fun _ j hmark => ?_
    exact hsome (memberBehindMark_grows hmark.of hn hmark.toPasses)
  · refine .ite (fun _ => hnone) fun _ => ?_
    refine (mark_takes (by decide) hi).bind fun _ j hmark => ?_
    rw [gives_peek_bind]
    split
    · exact hsome (call_grows hread hmark.of hn hmark.toPasses)
    · exact hsome (subscript_grows hread hmark.of hn hmark.toPasses)
    · exact hsome (memberBehindMark_grows hmark.of hn hmark.toPasses)
  · exact hsome (subscript_grows hread hi hn hhere)
  · exact hsome (tagged_grows hread hi hn hhere)
  · exact .ite (fun _ => hsome (call_grows hread hi hn hhere)) fun _ => hnone
  · refine .ite (fun _ => ?_) fun _ => hnone
    rw [gives_take_bind]
    exact hsome (node_grows (by decide) hn (.drop hi 2))
  · exact hnone

omit hi in
/-- A node with all that follows it. -/
theorem iterate_grows (whole : Bool) (place : Place) (hn : Before s n i) :
    (Reader.iterate (followed? read whole place) n).Gives i (Grows s n.start i) :=
  .iterate (hn.grows (.refl hn.of)) fun _ _ h =>
    (followed_grows hread h.of whole place h.toBefore).mono fun _ _ h' => h.trans h'

theorem constructed_reads : (constructed read).Gives i (Reads s i) := by
  have hbehind {first : Node} {j : Input} (h : Reads s i first j) :
      (Reader.iterate (followed? read false {}) first).Gives j (Reads s i) :=
    (iterate_grows hread false {} h.before).mono fun _ _ h' => h.grows hi h'
  rw [constructed, gives_peekWord_bind]
  refine .ite (fun _ => ?_) fun _ => ?_
  · exact (construction_reads hread hi).bind fun first j h => hbehind h
  · exact (primary_reads hread hi {}).bind fun first j h => hbehind h

/-! ## Operands -/

theorem assignment_reads (place : Place) : (assignment read place).Gives i (Reads s i) := by
  refine (primary_reads hread hi place).bind fun first i₁ hfirst => ?_
  refine (iterate_grows hread true place hfirst.before).bind fun left i₂ hgrown => ?_
  have hleft := hfirst.grows hi hgrown
  have hassign {kind : String} {left : Node} {j k : Input} (hkind : Plain kind)
      (hleft : Reads s i left j) (hway : Passes s j [] k) : Reader.Gives (do
        let right ← read (.expression place)
        Reader.node kind left.start [fill "left" left, fill "right" right]) k (Reads s i) :=
    (hread _ k hway.of).bind fun right m hright =>
      (node_grows hkind (hleft.before.fill "left")
        (hway.append (hright.fill "right").toPasses)).mono fun _ _ h => hleft.grows hi h
  have hequals {left : Node} {j : Input} (hleft : Reads s i left j) : Reader.Gives (do
      mark "="
      let right ← read (.expression place)
      Reader.node "assignment_expression" left.start [fill "left" left, fill "right" right]) j
      (Reads s i) :=
    (mark_takes (by decide) hleft.of).bind fun _ k hmark =>
      hassign (by decide) hleft hmark.toPasses
  refine gives_placeEnded_bind fun _ => .ite (fun _ => gives_pure.mpr hleft) fun _ => ?_
  refine gives_seesEquals_bind fun _ => .ite (fun _ => .ite (fun _ => ?_) fun _ => ?_) fun _ => ?_
  · refine (asDestructuring_reads hleft).bind ?_
    rintro p _ ⟨rfl, hp⟩
    exact hequals hp
  · exact hequals hleft
  · rw [gives_peek_bind]
    split
    · next m _ =>
      refine .ite (fun _ => ?_) fun _ => gives_pure.mpr hleft
      rw [gives_take_bind]
      exact hassign (by decide) hleft (.drop hleft.of _)
    · exact gives_pure.mpr hleft

theorem unary_reads {kind : String} (hkind : Plain kind) (k : ℕ) (place : Place) :
    (unary read kind k place).Gives i (Reads s i) := by
  rw [unary, gives_start_bind, gives_take_bind]
  have hmark : Passes s i [] (i.next.drop k) := .drop hi k
  refine (hread _ _ hmark.of).bind fun argument j hargument => ?_
  exact node_reads hkind (hmark.takes (hargument.fill "argument").toTakes)

theorem awaitFirst_reads (place : Place) : (awaitFirst read place).Gives i (Reads s i) := by
  rw [awaitFirst, gives_here_bind]
  exact .ite (fun _ => assignment_reads hread hi place) fun _ =>
    unary_reads hread hi (by decide) 5 place

theorem yieldFirst_reads (place : Place) : (yieldFirst read place).Gives i (Reads s i) := by
  rw [yieldFirst, gives_start_bind]
  refine (word_takes (by decide) hi).bind fun _ i₁ hword => ?_
  have hvalue {j : Input} (hway : Takes s i [] j) : Reader.Gives (do
      let e ← read (.expression place)
      Reader.node "yield_expression" i.next.offset [e]) j (Reads s i) :=
    (hread _ j hway.of).bind fun e k he => node_reads (by decide) (hway.append he.toPasses)
  refine .ite_bind (tries_takes (by decide) hword.of) (fun j hstar => ?_) ?_
  · exact hvalue (hword.on hstar.toPasses)
  · refine gives_placeEnded_bind fun _ => ?_
    rw [gives_peek_bind]
    exact .ite (fun _ => hvalue hword) fun _ => node_reads (by decide) hword

theorem operand_reads (place : Place) : (operand read place).Gives i (Reads s i) := by
  refine (skipPageComments_passes hi).bind fun _ j hskip => ?_
  have hbehind {r : Reader Node} (h : r.Gives j (Reads s j)) : r.Gives j (Reads s i) :=
    h.mono fun n k hn => hn.behind hskip
  have hunary {kind : String} (hkind : Plain kind) (k : ℕ) := 
    hbehind (unary_reads hread hskip.of hkind k place)
  rw [gives_peek_bind]
  split
  · exact hunary (by decide) 2
  · exact hunary (by decide) 2
  · refine hbehind ((privateName_reads hskip.of).bind fun n k hn => ?_)
    rw [gives_peekWord_bind, gives_guard_bind]
    exact fun _ => gives_pure.mpr hn
  · refine .ite (fun _ => hunary (by decide) 1) fun _ => ?_
    rw [gives_peekWord_bind]
    split
    · exact hunary (by decide) 6
    · exact hunary (by decide) 4
    · exact hunary (by decide) 6
    · exact hbehind (awaitFirst_reads hread hskip.of place)
    · exact hbehind (yieldFirst_reads hread hskip.of place)
    · exact hbehind (assignment_reads hread hskip.of place)
  · exact .failure

/-! ## Whole expressions -/

omit hread hi in
theorem gives_seesQuestion_bind {f : Bool → Reader β} (h : ∀ b, (f b).Gives i Q) :
    (seesQuestion >>= f).Gives i Q := by
  refine .look ?_ h
  rw [seesQuestion, gives_get_bind]
  split <;> exact gives_pure.mpr rfl

/-- A chain of operands with the branches of the condition that it may be. -/
theorem conditionBehind_grows {start : ℕ} {chain : Node} (place : Place)
    (hchain : Grows s start i₀ chain i) : Reader.Gives (do
      if !(← place.ended) && (← seesQuestion) then
        mark "?"
        let yes ← read (.expression {})
        mark ":"
        let no ← read (.expression place)
        Reader.node "ternary_expression" start [chain, yes, no]
      else return chain) i (Grows s start i₀) := by
  refine gives_placeEnded_bind fun _ => gives_seesQuestion_bind fun _ =>
    .ite (fun _ => ?_) fun _ => gives_pure.mpr hchain
  refine (mark_takes (by decide) hi).bind fun _ i₁ hmark => ?_
  refine (hread _ i₁ hmark.of).bind fun yes i₂ hyes => ?_
  refine (mark_takes (by decide) hyes.of).bind fun _ i₃ hcolon => ?_
  refine (hread _ i₃ hcolon.of).bind fun no j hno => ?_
  have hway := (hmark.append hyes.toPasses).append (hcolon.append hno.toPasses).toPasses
  rw [← hchain.start_eq]
  exact (node_grows (by decide) hchain.toBefore hway.toPasses).mono fun _ _ h =>
    hchain.start_eq ▸ hchain.trans h

theorem expression_reads (place : Place) : (expression read place).Gives i (Reads s i) := by
  refine (hread _ i hi).bind fun first i₁ hfirst => ?_
  refine (many_passes hfirst.of fun j hj => ?_).bind fun rest i₂ hrest => ?_
  · refine gives_placeEnded_bind fun _ => .ite (fun _ => gives_pure.mpr (.refl hj)) fun _ => ?_
    rw [gives_peek_bind]
    split
    · next k _ =>
      rw [gives_take_bind]
      have hmark : Passes s j [] (j.next.drop k) := .drop hj k
      exact (hread _ _ hmark.of).bind fun e m he =>
        gives_pure.mpr (hmark.append he.toPasses)
    · exact gives_pure.mpr (.refl hj)
  · have hbehind {chain : Node} {j : Input} (hchain : Grows s first.start i₁ chain j) :=
      (conditionBehind_grows hread hchain.of place hchain).mono fun _ _ h => hfirst.grows hi h
    refine .ite (fun hempty => ?_) fun _ => ?_
    · rw [List.isEmpty_iff.mp hempty] at hrest
      exact hbehind (hfirst.before.grows hrest)
    · exact (node_grows (by decide) hfirst.before hrest).bind fun _ _ hchain => hbehind hchain

end Expressions

end DocSignature.JavaScript
