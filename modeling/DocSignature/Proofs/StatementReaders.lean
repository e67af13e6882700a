import DocSignature.JavaScript.Statement
import DocSignature.Proofs.ExpressionReaders

/-!
# What the readers of statements give

Each statement is read from its first token to where it ends (`statement_reads`). A declaration may
not be there, in which case nothing is taken (`Perhaps`). The names that a module gives and takes
are no nodes, so they are only taken.
-/

namespace DocSignature.JavaScript

variable {s : List Char} {i i₀ j : Input} {n : Node} {l front : List Node} {kind w : String}

/-- A node is read, or nothing is taken. -/
structure Perhaps (s : List Char) (i : Input) (o : Option Node) (j : Input) : Prop where
  some : ∀ n, o = some n → Reads s i n j
  none : o = none → j = i

section Statements

variable {read : Grammar} (hread : read.Sound s) (hi : i.Of s)

include hread hi

theorem bodyStatement_reads : (bodyStatement read).Gives i (Reads s i) := by
  refine (skipPageComments_passes hi).bind fun _ j hskip => ?_
  exact (hread _ j hskip.of).mono fun n k hn => hn.behind hskip

omit hread hi in
/-- What is left to read of an expression as a statement. -/
theorem expressionEnd_reads {e : Node} (he : Reads s i₀ e i) (hi : i₀.Of s) : Reader.Gives (do
    semicolon true
    Reader.node "expression_statement" e.start [e]) i (Reads s i₀) := by
  refine (semicolon_passes true he.of).bind fun _ j hend => ?_
  exact (node_grows (by decide) he.before hend).mono fun _ _ h => he.grows hi h

theorem expressionStatement_reads : (expressionStatement read).Gives i (Reads s i) :=
  (expressions_reads hread hi _).bind fun _ _ he => expressionEnd_reads he hi

/-! ## Declarations -/

theorem binding_reads : (binding read).Gives i (Reads s i) := by
  have hpattern {n : Node} {j : Input} (hn : Reads s i n j) :
      (asDestructuring n).Gives j (Reads s i) :=
    (asDestructuring_reads hn).mono fun p k ⟨hk, hp⟩ => hk ▸ hp
  rw [binding, gives_peek_bind]
  split
  · exact (array_reads hread hi).bind fun n j hn => hpattern hn
  · exact (hread _ i hi).bind fun n j hn => hpattern hn
  · exact name_reads (by decide) hi

theorem declarator_reads : (declarator read).Gives i fun x j => Reads s i x.1 j := by
  refine (binding_reads hread hi).bind fun target i₁ htarget => ?_
  have hname := htarget.before.fill "name"
  rw [gives_ended_bind]
  refine (tries_passes (by decide) htarget.of).bind fun _ i₂ hmark => .ite (fun _ => ?_) fun _ => ?_
  · refine (hread _ i₂ hmark.of).bind fun value j hvalue => ?_
    refine (node_grows (by decide) hname (hmark.append (hvalue.fill "value").toPasses)).bind
      fun n k hn => gives_pure.mpr (htarget.grows hi hn)
  · exact (node_grows (by decide) hname hmark).bind fun n k hn =>
      gives_pure.mpr (htarget.grows hi hn)

theorem declarators_reads (hkind : Plain kind) (hfront : Takes s i₀ [] i) :
    (declarators read kind i₀.next.offset).Gives i (Reads s i₀) := by
  refine (declarator_reads hread hi).bind fun first i₁ hfirst => ?_
  refine (Reader.Gives.ways (fun x : Node × Bool => [x.1]) (.refl hfirst.of) Passes.of
    Passes.append fun j hj => ?_).bind fun rest i₂ hrest => ?_
  · refine .ite_bind (tries_takes (by decide) hj) (fun k hmark => ?_) (gives_pure.mpr (.refl hj))
    exact (declarator_reads hread hmark.of).bind fun x m hx =>
      gives_pure.mpr (hmark.append hx.toPasses).toPasses
  · refine (semicolon_passes _ hrest.of).bind fun _ j hend => ?_
    rw [List.map_eq_flatMap, List.flatMap_cons]
    exact node_reads hkind (hfront.append (hfirst.toPasses.append (hrest.on hend)))

theorem declaration_perhaps : (declaration? read).Gives i (Perhaps s i) := by
  have hnone : Reader.Gives (pure none) i (Perhaps s i) := gives_pure.mpr ⟨nofun, fun _ => rfl⟩
  have hsome {r : Reader Node} {j : Input} (h : r.Gives j (Reads s i)) :
      Reader.Gives (do return some (← r)) j (Perhaps s i) :=
    h.bind fun n k hn => gives_pure.mpr ⟨fun m hm => Option.some.inj hm ▸ hn, nofun⟩
  have hdeclarators {w kind : String} {j : Input} (hw : w ≠ "") (hkind : Plain kind)
      (hfront : Passes s i [] j) : Reader.Gives (do
        word w
        return some (← declarators read kind i.next.offset)) j (Perhaps s i) :=
    (word_takes hw hfront.of).bind fun _ k hword =>
      hsome (declarators_reads hread hword.of hkind (hfront.takes hword))
  have hhere := Passes.refl hi
  rw [declaration?, gives_here_bind]
  dsimp only
  split
  · exact hdeclarators (by decide) (by decide) hhere
  · exact hdeclarators (by decide) (by decide) hhere
  · exact .ite (fun _ => hdeclarators (by decide) (by decide) hhere) fun _ => hnone
  · exact .ite (fun _ => hdeclarators (by decide) (by decide) hhere) fun _ => hnone
  · refine .ite (fun _ => ?_) fun _ => hnone
    refine (word_takes (by decide) hi).bind fun _ j hword => ?_
    exact hdeclarators (by decide) (by decide) hword.toPasses
  · exact .ite (fun _ => hsome (functionDeclaration_reads hread hi hhere)) fun _ => hnone
  · refine .ite (fun _ => ?_) fun _ => hnone
    refine (word_takes (by decide) hi).bind fun _ j hword => ?_
    exact hsome (functionDeclaration_reads hread hword.of hword.toPasses)
  · exact .ite (fun _ => hsome (classBehind_reads hread hi (by decide) hhere)) fun _ => hnone
  · exact hnone

theorem decoratedClass_reads (hfront : Passes s i₀ front i) :
    (decoratedClass read i₀.next.offset front).Gives i (Reads s i₀) := by
  rw [decoratedClass, gives_peek_bind, gives_guard_bind]
  exact fun _ => classBehind_reads hread hi (by decide) hfront

/-! ## Modules -/

omit hread in
theorem moduleName_takes : moduleName.Gives i fun _ j => Takes s i [] j := by
  rw [moduleName, gives_peek_bind]
  refine .ite (fun _ => ?_) fun _ => ?_
  · exact (string_reads hi).bind fun _ j hn => gives_pure.mpr hn.forget
  refine (triesWord_takes (by decide) hi).bind fun b j hword => ?_
  cases b with
  | true => exact gives_pure.mpr (hword.taken rfl)
  | false =>
    obtain rfl := hword.left rfl
    exact (name_reads (by decide) hi).bind fun _ j hn => gives_pure.mpr hn.forget

omit hread in
theorem specifier_reads : specifier.Gives i (Reads s i) := by
  rw [specifier, gives_start_bind]
  refine (moduleName_takes hi).bind fun _ i₁ hname => ?_
  refine .ite_bind (triesWord_takes (by decide) hname.of) (fun i₂ hword => ?_) ?_
  · refine (moduleName_takes hword.of).bind fun _ j halias => ?_
    exact node_reads (by decide) (hname.on (hword.on halias.toPasses).toPasses)
  · exact node_reads (by decide) hname

omit hread in
theorem specifiers_take : specifiers.Gives i fun _ j => Takes s i [] j := by
  refine (mark_takes (by decide) hi).bind fun _ i₁ hopen => ?_
  refine (slotsOf_takes (by decide) (fun j hj => specifier_reads hj) hopen.of).bind
    fun items j ⟨hitems, _⟩ => ?_
  unfold guard
  exact .ite (fun _ => gives_pure.mpr (hopen.append hitems.toPasses).forget) fun _ => .failure

omit hread in
theorem fromModule_takes : fromModule.Gives i fun _ j => Takes s i [] j := by
  refine (word_takes (by decide) hi).bind fun _ i₁ hword => ?_
  exact (string_reads hword.of).bind fun _ j hn => gives_pure.mpr (hword.on hn.forget.toPasses)

omit hread in
theorem wholeModule_takes : wholeModule.Gives i fun _ j => Takes s i [] j := by
  refine (mark_takes (by decide) hi).bind fun _ i₁ hmark => ?_
  refine (word_takes (by decide) hmark.of).bind fun _ i₂ hword => ?_
  exact (moduleName_takes hword.of).mono fun _ j hname =>
    hmark.on (hword.on hname.toPasses).toPasses

omit hread in
theorem importClause_takes : importClause.Gives i fun _ j => Takes s i [] j := by
  have hnamed {j : Input} (hj : j.Of s) : Reader.Gives (do
      if ← sees "*" then wholeModule else specifiers) j fun _ k => Takes s j [] k := by
    rw [gives_sees_bind]
    exact .ite (fun _ => wholeModule_takes hj) fun _ => specifiers_take hj
  unfold importClause
  extract_lets named
  rw [gives_peek_bind]
  refine .ite (fun _ => ?_) fun _ => hnamed hi
  refine (name_reads (by decide) hi).bind fun _ i₁ hname => ?_
  refine .ite_bind (tries_takes (by decide) hname.of) (fun j hmark => ?_)
    (gives_pure.mpr hname.forget)
  exact (hnamed hmark.of).mono fun _ k h => hname.forget.on (hmark.on h.toPasses).toPasses

theorem importStatement_reads : (importStatement read).Gives i (Reads s i) := by
  rw [importStatement, gives_start_bind]
  refine (word_takes (by decide) hi).bind fun _ i₁ hword => ?_
  have hend {attributes : List Node} {j : Input} (hway : Takes s i attributes j) :
      Reader.Gives (do
        semicolon false
        Reader.node "import_statement" i.next.offset attributes) j (Reads s i) :=
    (semicolon_passes false hway.of).bind fun _ k hk => node_reads (by decide) (hway.on hk)
  have hbehind {j : Input} (hway : Takes s i [] j) : Reader.Gives (do
      let attributes ← if ← triesWord "with" then pure [← read .object] else pure []
      semicolon false
      Reader.node "import_statement" i.next.offset attributes) j (Reads s i) := by
    refine .ite_bind (triesWord_takes (by decide) hway.of) (fun k hk => ?_) (hend hway)
    exact (hread _ k hk.of).bind fun n m hn => hend (hway.append (hk.append hn.toPasses).toPasses)
  rw [gives_peek_bind]
  refine .ite (fun _ => ?_) fun _ => ?_
  · exact (string_reads hword.of).bind fun _ j hn => hbehind (hword.on hn.forget.toPasses)
  · refine (importClause_takes hword.of).bind fun _ i₂ hclause => ?_
    refine (fromModule_takes hclause.of).bind fun _ j hfrom => ?_
    exact hbehind (hword.on (hclause.on hfrom.toPasses).toPasses)

theorem defaultExport_passes : (defaultExport read).Gives i fun l j => Passes s i l j := by
  rw [defaultExport, gives_start_bind]
  refine (declaration_perhaps hread hi).bind fun o j ho => ?_
  rcases o with - | d
  · obtain rfl := ho.none rfl
    dsimp only
    refine .orElse ?_ ?_
    · rw [bind_assoc, gives_sees_bind, bind_assoc, gives_guard_bind]
      intro _
      rw [bind_assoc]
      refine (decorators_pass hread hi).bind fun front j hfront => ?_
      exact (decoratedClass_reads hread hfront.of hfront).bind fun d k hd =>
        gives_pure.mpr (hd.fill "declaration").toPasses
    · rw [bind_assoc]
      refine (hread _ _ hi).bind fun e j he => ?_
      rw [bind_assoc]
      refine (semicolon_passes true he.of).bind fun _ k hend => ?_
      exact gives_pure.mpr ((he.on hend).fill "value").toPasses
  · exact gives_pure.mpr ((ho.some d rfl).fill "declaration").toPasses

theorem exported_passes : (exported read).Gives i fun l j => Passes s i l j := by
  have hend {j : Input} (hway : Passes s i [] j) : Reader.Gives (do
      semicolon false
      return ([] : List Node)) j fun l k => Passes s i l k :=
    (semicolon_passes false hway.of).bind fun _ k hk => gives_pure.mpr (hway.append hk)
  have hfrom {j : Input} (hway : Passes s i [] j) : Reader.Gives (do
      fromModule
      semicolon false
      return ([] : List Node)) j fun l k => Passes s i l k :=
    (fromModule_takes hway.of).bind fun _ k hk => hend (hway.append hk.toPasses)
  rw [exported, gives_start_bind, gives_peek_bind]
  split
  · rw [gives_peek_bind]
    refine .ite (fun _ => ?_) fun _ => ?_
    · exact (wholeModule_takes hi).bind fun _ j hj => hfrom hj.toPasses
    · exact (mark_takes (by decide) hi).bind fun _ j hj => hfrom hj.toPasses
  · refine (specifiers_take hi).bind fun _ j hj => ?_
    rw [gives_peekWord_bind]
    exact .ite (fun _ => hfrom hj.toPasses) fun _ => hend hj.toPasses
  · refine (decorators_pass hread hi).bind fun front j hfront => ?_
    exact (decoratedClass_reads hread hfront.of hfront).bind fun d k hd =>
      gives_pure.mpr (hd.fill "declaration").toPasses
  · refine .ite_bind (triesWord_takes (by decide) hi) (fun j hword => ?_) ?_
    · exact (defaultExport_passes hread hword.of).mono fun l k h =>
        (hword.append h).toPasses
    · refine (declaration_perhaps hread hi).bind fun o j ho => ?_
      rcases o with - | d
      · exact .failure
      · exact gives_pure.mpr ((ho.some d rfl).fill "declaration").toPasses

theorem exportStatement_reads (hfront : Passes s i₀ front i) :
    (exportStatement read i₀.next.offset front).Gives i (Reads s i₀) := by
  refine (word_takes (by decide) hi).bind fun _ i₁ hword => ?_
  refine (exported_passes hread hword.of).bind fun items j hitems => ?_
  exact node_reads (by decide) ((hfront.upTo hword).append hitems)

/-! ## Loops -/

theorem loopOver_reads : (loopOver read).Gives i (Reads s i) := by
  have hover {j : Input} (hway : Passes s i [] j) :
      (expressions read {}).Gives j (Reads s i) :=
    (expressions_reads hread hway.of {}).mono fun _ _ he => he.behind hway
  refine .ite_bind (triesWord_takes (by decide) hi) (fun j hword => hover hword.toPasses) ?_
  exact (word_takes (by decide) hi).bind fun _ j hword => hover hword.toPasses

omit hread in
theorem loopWord_takes : loopWord.Gives i fun _ j => Takes s i [] j := by
  rw [loopWord, gives_peekWord_bind]
  refine .ite (fun h => ?_) fun _ => .ite (fun _ => ?_) fun _ => .failure
  · refine (word_takes (fun hempty => ?_) hi).bind fun _ j hword => gives_pure.mpr hword
    rw [hempty] at h
    revert h
    decide
  · refine (word_takes (by decide) hi).bind fun _ i₁ hword => ?_
    exact (word_takes (by decide) hword.of).bind fun _ j husing =>
      gives_pure.mpr (hword.on husing.toPasses)

theorem memberHead_takes : (memberHead read).Gives i fun l j => Takes s i l j := by
  unfold memberHead
  extract_lets bound place overBound overPlace
  have hover {r : Reader (List Node)} (h : r.Gives i fun l j => Passes s i l j) :
      Reader.Gives (do return (← r) ++ [← loopOver read]) i fun l j => Passes s i l j :=
    h.bind fun l j hl => (loopOver_reads hread hl.of).bind fun n k hn =>
      gives_pure.mpr (hl.append hn.toPasses)
  have hbound : bound.Gives i fun l j => Passes s i l j := by
    refine (loopWord_takes hi).bind fun w i₁ hword => ?_
    refine (binding_reads hread hword.of).bind fun left i₂ hleft => ?_
    have hway := (hword.append (hleft.fill "left").toPasses).toPasses
    refine (tries_passes (by decide) hway.of).bind fun _ i₃ hmark => ?_
    refine .ite (fun _ => ?_) fun _ => gives_pure.mpr (hway.on hmark)
    exact (hread _ i₃ hmark.of).bind fun value j hvalue =>
      gives_pure.mpr (hway.append (hmark.append (hvalue.fill "value").toPasses))
  have hplace : place.Gives i fun l j => Passes s i l j := by
    refine (hread _ i hi).bind fun left i₁ hleft => .ite (fun _ => ?_) fun _ => ?_
    · refine (asDestructuring_reads hleft).bind ?_
      rintro p _ ⟨rfl, hp⟩
      exact gives_pure.mpr (hp.fill "left").toPasses
    · rw [gives_guard_bind]
      exact fun _ => gives_pure.mpr (hleft.fill "left").toPasses
  refine (Reader.Gives.orElse (hover hbound) (hover hplace)).bind fun items j hitems => ?_
  exact (mark_takes (by decide) hitems.of).bind fun _ k hclose =>
    gives_pure.mpr (hitems.upTo hclose)

theorem stepHead_takes : (stepHead read).Gives i fun l j => Takes s i l j := by
  unfold stepHead
  extract_lets upTo
  have hupTo {j : Input} (hj : j.Of s) : upTo.Gives j fun l k => Passes s j l k := by
    refine .ite_bind (tries_takes (by decide) hj) (fun k hmark => ?_) ?_
    · exact gives_pure.mpr hmark.toPasses
    · refine (expressions_reads hread hj {}).bind fun e k he => ?_
      exact (mark_takes (by decide) he.of).bind fun _ m hmark =>
        gives_pure.mpr (he.toPasses.on hmark.toPasses)
  have hbehind {first : List Node} {j : Input} (hfirst : Passes s i first j) : Reader.Gives (do
      let condition ← upTo
      let step ← if ← sees ")" then pure [] else pure [← expressions read {}]
      mark ")"
      return first ++ condition ++ step) j fun l k => Takes s i l k := by
    refine (hupTo hfirst.of).bind fun condition j₁ hcondition => ?_
    have hclose {step : List Node} {m : Input} (hstep : Passes s j₁ step m) : Reader.Gives (do
        mark ")"
        return first ++ condition ++ step) m fun l k => Takes s i l k :=
      (mark_takes (by decide) hstep.of).bind fun _ k hmark =>
        gives_pure.mpr (((hfirst.append hcondition).append hstep).upTo hmark)
    rw [gives_sees_bind]
    refine .ite (fun _ => hclose (.refl hcondition.of)) fun _ => ?_
    exact (expressions_reads hread hcondition.of {}).bind fun e k he => hclose he.toPasses
  refine (declaration_perhaps hread hi).bind fun o j ho => ?_
  rcases o with - | d
  · obtain rfl := ho.none rfl
    exact (hupTo hi).bind fun first k hfirst => hbehind hfirst
  · dsimp only
    rw [gives_guard_bind]
    exact fun _ => hbehind ((ho.some d rfl).fill "initializer").toPasses

theorem forStatement_reads : (forStatement read).Gives i (Reads s i) := by
  rw [forStatement, gives_start_bind]
  refine (word_takes (by decide) hi).bind fun _ i₁ hword => ?_
  refine (triesWord_passes (by decide) hword.of).bind fun awaits i₂ hawait => ?_
  refine (mark_takes (by decide) hawait.of).bind fun _ i₃ hopen => ?_
  have hway := hword.on (hawait.takes hopen).toPasses
  have hfront : Reader.Gives ((do return (← memberHead read, "for_in_statement")) <|> (do
      guard !awaits
      return (← stepHead read, "for_statement"))) i₃
      fun x j => Takes s i₃ x.1 j ∧ Plain x.2 := by
    refine .orElse ?_ ?_
    · exact (memberHead_takes hread hopen.of).bind fun l j hl =>
        gives_pure.mpr ⟨hl, show Plain "for_in_statement" by decide⟩
    · rw [gives_guard_bind]
      exact fun _ => (stepHead_takes hread hopen.of).bind fun l j hl =>
        gives_pure.mpr ⟨hl, show Plain "for_statement" by decide⟩
  refine hfront.bind fun ⟨front, kind⟩ i₄ ⟨hhead, hkind⟩ => ?_
  refine (bodyStatement_reads hread hhead.of).bind fun body j hbody => ?_
  exact node_reads hkind (hway.append (hhead.append (hbody.fill "body").toPasses).toPasses)

theorem doStatement_reads : (doStatement read).Gives i (Reads s i) := by
  rw [doStatement, gives_start_bind]
  refine (word_takes (by decide) hi).bind fun _ i₁ hword => ?_
  refine (bodyStatement_reads hread hword.of).bind fun body i₂ hbody => ?_
  refine (word_takes (by decide) hbody.of).bind fun _ i₃ hwhile => ?_
  refine (parenthesized_reads hread hwhile.of).bind fun condition i₄ hcondition => ?_
  have hway := hword.append (hbody.append (hwhile.append hcondition.toPasses).toPasses).toPasses
  rw [gives_ended_bind]
  refine .ite (fun _ => node_reads (by decide) hway) fun _ => ?_
  exact (tries_passes (by decide) hway.of).bind fun _ j hmark =>
    node_reads (by decide) (hway.on hmark)

/-! ## Branches and jumps -/

theorem guarded_reads (hw : w ≠ "") (hkind : Plain kind) :
    (guarded read w kind).Gives i (Reads s i) := by
  rw [guarded, gives_start_bind]
  refine (word_takes hw hi).bind fun _ i₁ hword => ?_
  refine (parenthesized_reads hread hword.of).bind fun e i₂ he => ?_
  refine (bodyStatement_reads hread he.of).bind fun body j hbody => ?_
  exact node_reads hkind (hword.append (he.append hbody.toPasses).toPasses)

theorem ifStatement_reads : (ifStatement read).Gives i (Reads s i) := by
  rw [ifStatement, gives_start_bind]
  refine (word_takes (by decide) hi).bind fun _ i₁ hword => ?_
  refine (parenthesized_reads hread hword.of).bind fun condition i₂ hcondition => ?_
  refine (bodyStatement_reads hread hcondition.of).bind fun yes i₃ hyes => ?_
  have hway := hword.append (hcondition.append hyes.toPasses).toPasses
  refine .ite_bind (triesWord_takes (by decide) hyes.of) (fun j helse => ?_) ?_
  · exact (bodyStatement_reads hread helse.of).bind fun no k hno =>
      node_reads (by decide) (hway.append (helse.append hno.toPasses).toPasses)
  · exact node_reads (by decide) hway

theorem switchCase_passes :
    (switchCase? read).Gives i fun o j => Passes s i (o.getD []) j := by
  refine (skipPageComments_passes hi).bind fun _ i₁ hskip => ?_
  refine .ite_bind (triesWord_takes (by decide) hskip.of) (fun i₂ hword => ?_) ?_
  · refine (expressions_reads hread hword.of {}).bind fun e i₃ he => ?_
    refine (mark_takes (by decide) he.of).bind fun _ i₄ hmark => ?_
    exact (statements_pass hread hmark.of).bind fun body j hbody => gives_pure.mpr
      (hskip.append (hword.append (he.append (hmark.append hbody).toPasses).toPasses).toPasses)
  refine .ite_bind (triesWord_takes (by decide) hskip.of) (fun i₂ hword => ?_)
    (gives_pure.mpr hskip)
  refine (mark_takes (by decide) hword.of).bind fun _ i₃ hmark => ?_
  exact (statements_pass hread hmark.of).bind fun body j hbody => gives_pure.mpr
    (hskip.append (hword.append (hmark.append hbody).toPasses).toPasses)

theorem switchStatement_reads : (switchStatement read).Gives i (Reads s i) := by
  rw [switchStatement, gives_start_bind]
  refine (word_takes (by decide) hi).bind fun _ i₁ hword => ?_
  refine (parenthesized_reads hread hword.of).bind fun value i₂ hvalue => ?_
  refine (mark_takes (by decide) hvalue.of).bind fun _ i₃ hopen => ?_
  refine (manyLists_pass hopen.of fun j hj => switchCase_passes hread hj).bind
    fun cases i₄ hcases => ?_
  refine (mark_takes (by decide) hcases.of).bind fun _ j hclose => ?_
  exact node_reads (by decide) (hword.append (hvalue.append
    (hopen.append (hcases.upTo hclose).toPasses).toPasses).toPasses)

theorem tryStatement_reads : (tryStatement read).Gives i (Reads s i) := by
  rw [tryStatement, gives_start_bind]
  refine (word_takes (by decide) hi).bind fun _ i₁ hword => ?_
  refine (block_reads hread hword.of).bind fun body i₂ hbody => ?_
  have hway := hword.append hbody.toPasses
  have hfinally {handler : List Node} {j : Input} (hhandler : Passes s i₂ handler j) :
      Reader.Gives (do
        let finalizer ← if ← triesWord "finally" then pure [← block read] else pure []
        Reader.node "try_statement" i.next.offset (body :: handler ++ finalizer)) j
        (Reads s i) := by
    refine .ite_bind (triesWord_takes (by decide) hhandler.of) (fun k hfinally => ?_) ?_
    · exact (block_reads hread hfinally.of).bind fun finalizer m hfinalizer =>
        node_reads (by decide) ((hway.append hhandler).append
          (hfinally.append hfinalizer.toPasses).toPasses)
    · exact node_reads (by decide) ((hway.append hhandler).append (.refl hhandler.of))
  refine .ite_bind (triesWord_takes (by decide) hbody.of) (fun i₃ hcatch => ?_)
    (hfinally (.refl hbody.of))
  have hblock {parameter : List Node} {j : Input} (hparameter : Passes s i₃ parameter j) :
      Reader.Gives (do
        let caught ← block read
        let finalizer ← if ← triesWord "finally" then pure [← block read] else pure []
        Reader.node "try_statement" i.next.offset (body :: (parameter ++ [caught]) ++ finalizer)) j
        (Reads s i) :=
    (block_reads hread hparameter.of).bind fun caught k hcaught =>
      hfinally (hcatch.append (hparameter.append hcaught.toPasses)).toPasses
  refine .ite_bind (tries_takes (by decide) hcatch.of) (fun i₄ hopen => ?_)
    (hblock (.refl hcatch.of))
  refine (binding_reads hread hopen.of).bind fun n i₅ hn => ?_
  exact (mark_takes (by decide) hn.of).bind fun _ j hclose =>
    hblock (hopen.append (hn.on hclose.toPasses).toPasses).toPasses

omit hread in
theorem jump_reads (hw : w ≠ "") (hkind : Plain kind) : (jump w kind).Gives i (Reads s i) := by
  rw [jump, gives_start_bind]
  refine (word_takes hw hi).bind fun _ i₁ hword => ?_
  have hend {j : Input} (hway : Takes s i [] j) : Reader.Gives (do
      semicolon false
      Reader.node kind i.next.offset []) j (Reads s i) :=
    (semicolon_passes false hway.of).bind fun _ k hk => node_reads hkind (hway.on hk)
  rw [gives_ended_bind]
  refine .ite (fun _ => hend hword) fun _ => ?_
  rw [gives_peek_bind]
  refine .ite (fun _ => ?_) fun _ => hend hword
  exact (name_reads (by decide) hword.of).bind fun _ j hname =>
    hend (hword.on hname.forget.toPasses)

/-- The value of a jump up to the end of the statement. -/
theorem valueEnd_reads (hkind : Plain kind) (hfront : Takes s i₀ [] i) : Reader.Gives (do
    let e ← expressions read { ends := true }
    semicolon true
    Reader.node kind i₀.next.offset [e]) i (Reads s i₀) := by
  refine (expressions_reads hread hi _).bind fun e i₁ he => ?_
  refine (semicolon_passes true he.of).bind fun _ j hend => ?_
  exact node_reads hkind (hfront.append (he.on hend).toPasses)

theorem returnStatement_reads : (returnStatement read).Gives i (Reads s i) := by
  rw [returnStatement, gives_start_bind]
  refine (word_takes (by decide) hi).bind fun _ i₁ hword => ?_
  rw [gives_ended_bind, gives_sees_bind]
  refine .ite (fun _ => ?_) fun _ => valueEnd_reads hread hword.of (by decide) hword
  exact (semicolon_passes false hword.of).bind fun _ j hend =>
    node_reads (by decide) (hword.on hend)

theorem throwStatement_reads : (throwStatement read).Gives i (Reads s i) := by
  rw [throwStatement, gives_start_bind]
  exact (word_takes (by decide) hi).bind fun _ i₁ hword =>
    valueEnd_reads hread hword.of (by decide) hword

theorem labeledStatement_reads : (labeledStatement read).Gives i (Reads s i) := by
  refine (name_reads (by decide) hi).bind fun label i₁ hlabel => ?_
  refine (mark_takes (by decide) hlabel.of).bind fun _ i₂ hmark => ?_
  refine (bodyStatement_reads hread hmark.of).bind fun body j hbody => ?_
  exact (node_grows (by decide) hlabel.before (hmark.append hbody.toPasses).toPasses).mono
    fun _ _ h => hlabel.grows hi h

/-! ## Any statement -/

theorem decorated_reads : (decorated read).Gives i (Reads s i) := by
  rw [decorated, gives_start_bind]
  refine .orElse ?_ (expressionStatement_reads hread hi)
  refine (decorators_pass hread hi).bind fun front j hfront => ?_
  rw [gives_peekWord_bind]
  exact .ite (fun _ => exportStatement_reads hread hfront.of hfront) fun _ =>
    decoratedClass_reads hread hfront.of hfront

theorem plainStatement_reads : (plainStatement read).Gives i (Reads s i) := by
  rw [plainStatement, gives_peek_bind]
  exact .ite (fun _ => labeledStatement_reads hread hi) fun _ =>
    expressionStatement_reads hread hi

theorem wordStatement_reads : (wordStatement read).Gives i (Reads s i) := by
  have hexpression := expressionStatement_reads hread hi
  rw [wordStatement, gives_here_bind]
  split
  · exact ifStatement_reads hread hi
  · exact forStatement_reads hread hi
  · exact guarded_reads hread hi (by decide) (by decide)
  · exact guarded_reads hread hi (by decide) (by decide)
  · exact doStatement_reads hread hi
  · exact switchStatement_reads hread hi
  · exact tryStatement_reads hread hi
  · exact jump_reads hi (by decide) (by decide)
  · exact jump_reads hi (by decide) (by decide)
  · next h =>
    refine (leaf_reads (by decide) hi (by decide) (wordOf_ne_nil (by decide) h)).bind
      fun n j hn => ?_
    exact (semicolon_passes false hn.of).bind fun _ k hend => gives_pure.mpr (hn.on hend)
  · exact returnStatement_reads hread hi
  · exact throwStatement_reads hread hi
  · exact .ite (fun _ => hexpression) fun _ => importStatement_reads hread hi
  · exact .ite (fun _ => hexpression) fun _ => exportStatement_reads hread hi (.refl hi)
  · refine (declaration_perhaps hread hi).bind fun o j ho => ?_
    rcases o with - | d
    · obtain rfl := ho.none rfl
      exact plainStatement_reads hread hi
    · exact gives_pure.mpr (ho.some d rfl)

theorem statement_reads : (statement read).Gives i (Reads s i) := by
  rw [statement, gives_peek_bind]
  split
  · refine braces_give ?_ (block_reads hread hi)
    exact (objectFirst_reads hread hi _).bind fun e j he => expressionEnd_reads he hi
  · next t hrest => exact leaf_reads (by decide) hi (by decide) (by simp [hrest])
  · exact decorated_reads hread hi
  · exact .ite (fun _ => expressionStatement_reads hread hi) fun _ =>
      wordStatement_reads hread hi

end Statements

end DocSignature.JavaScript
