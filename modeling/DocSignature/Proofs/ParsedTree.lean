import DocSignature.JavaScript.Program
import DocSignature.Proofs.StatementReaders
import DocSignature.Proofs.Totality

/-!
# The trees that are read

The readers of phrases are tied to each other by how deep they may be nested, and each phrase is
read at every depth (`phrase_sound`), so the tree of a program is sound. The tree of any other
source is a single fault.

So every tree that is read has what is asked of trees elsewhere : its flags tell of the faults in it
(`parse_flagsDerived`), and its nodes start one behind the other (`parse_startsOrdered`,
`parse_sourceOrdered`). That of a text is refused or made of the tokens of the grammar
(`parse_followsGrammar`), and follows the grammar if no escape takes a line end along
(`parse_grammatical`).
-/

namespace DocSignature.JavaScript

variable {s : List Char} {i : Input}

/-- Each phrase is read, however deep phrases may be nested. -/
theorem phrase_sound : ∀ n, (phrase n).Sound s
  | 0, _, _, _ => .failure
  | n + 1, .statement, _, hi => statement_reads (phrase_sound n) hi
  | n + 1, .expression place, _, hi => expression_reads (phrase_sound n) hi place
  | n + 1, .operand place, _, hi => operand_reads (phrase_sound n) hi place
  | n + 1, .constructed, _, hi => constructed_reads (phrase_sound n) hi
  | n + 1, .object, _, hi => object_reads (phrase_sound n) hi
  | n + 1, .element, _, hi => element_reads (phrase_sound n) hi

theorem skipInterpreter_passes (hi : i.Of s) :
    skipInterpreter.Gives i fun _ j => Passes s i [] j := by
  rw [skipInterpreter, gives_here_bind]
  refine .ite (fun _ => ?_) fun _ => gives_pure.mpr (.refl hi)
  rintro _ _ _ ⟨⟩
  exact .drop hi _

theorem program_sound : program.Gives ⟨0, s⟩ fun n _ => n.Sound s ∧
    ¬(n.isName ∨ n.field = some "name" ∨ n.field = some "property") := by
  refine (skipInterpreter_passes (Input.of_self s)).bind fun _ i hskip => ?_
  rw [gives_start_bind]
  have hbound : Reader.Gives (MonadReader.read : Reader ℕ) i fun _ j => j = i := by
    rintro _ _ _ ⟨⟩
    rfl
  refine hbound.look fun bound => ?_
  refine (statements_pass (phrase_sound _) hskip.of).bind fun items j hitems => ?_
  rw [gives_peek_bind, gives_guard_bind]
  rintro - _ _ _ ⟨⟩
  refine ⟨sound_make_of_plain (by decide) hitems.row hitems.of.offset_le, ?_⟩
  simp [Node.isName, Node.make]

/-- The tree of a source is a single fault, or the sound tree of a program without a flag, which is
no name. -/
theorem tree_cases (s : List Char) :
    (∃ stop, tree s = Node.make Node.errorKind 0 stop none true false []) ∨
      ((tree s).Sound s ∧ (tree s).flagged = false ∧ ¬((tree s).isName ∨
        (tree s).field = some "name" ∨ (tree s).field = some "property")) := by
  unfold tree
  extract_lets fault
  split
  · exact .inl ⟨_, rfl⟩
  · split
    · next n j hrun =>
      obtain ⟨hsound, hname⟩ := program_sound _ n j hrun
      split
      · exact .inl ⟨_, rfl⟩
      · next hflagged => exact .inr ⟨hsound, Bool.eq_false_iff.mpr hflagged, hname⟩
    · exact .inl ⟨_, rfl⟩

/-- A tree that is not flagged is made of the tokens of the grammar. -/
theorem tree_tokenized (h : (tree s).flagged = false) : Tokenized (.ofChars s) (tree s) := by
  rcases tree_cases s with ⟨stop, hfault⟩ | ⟨hsound, -, hname⟩
  · rw [hfault] at h
    cases h
  · exact hsound.tokenized fun h => absurd h hname

/-! ## Any source -/

/-- What holds of single faults and of sound trees without a flag holds of every tree that is read.
-/
theorem parse_induction {P : Node → Prop}
    (hfault : ∀ stop, P (Node.make Node.errorKind 0 stop none true false []))
    (hsound : ∀ s n, Node.Sound s n → n.flagged = false → P n) (src : Source) : P (parse src) := by
  rw [parse]
  rcases tree_cases (Utf8.decode src.octets) with ⟨stop, h⟩ | ⟨h, hflagged, -⟩
  · exact h ▸ hfault stop
  · exact hsound _ _ h hflagged

/-- The flags of a tree that is read tell of the faults in it. -/
theorem parse_flagsDerived (src : Source) : (parse src).FlagsDerived := by
  refine parse_induction (fun stop n hn => ?_) (fun _ _ h => h.flagsDerived) src
  rw [Node.nodes_eq] at hn
  obtain rfl := List.mem_singleton.mp hn
  rfl

/-- The nodes of a tree that is read start one behind the other. -/
theorem parse_startsOrdered (src : Source) : (parse src).StartsOrdered :=
  parse_induction (fun _ => List.pairwise_singleton _ _) (fun _ _ h _ => h.startsOrdered) src

/-- A walk through a tree that is read comes by its nodes in the order in which they start. -/
theorem parse_sourceOrdered (src : Source) : (parse src).SourceOrdered :=
  (parse_startsOrdered src).sublist (parse src).visited_sublist_nodes

/-! ## Texts -/

theorem parse_ofString (text : String) : parse (.ofString text) = tree text.toList := by
  rw [parse, Source.ofString, Source.ofChars, Utf8.decode_encode]

/-- The tree of a text is refused or made of the tokens of the grammar. -/
theorem parse_followsGrammar (text : String) :
    Parser.FollowsGrammar parse (.ofString text) := by
  intro h
  rw [parse_ofString] at h ⊢
  exact tree_tokenized (Bool.eq_false_iff.mpr h)

/-- It follows the grammar if it is not refused and no escape in the text takes a line end along,
other than that of two characters. -/
theorem parse_grammatical (text : String) (h : ¬(parse (.ofString text)).flagged)
    (hescape : ∀ t, t <:+: text.toList → EscapeToken t → EscapeText t) :
    Grammatical (.ofString text) (parse (.ofString text)) := by
  rw [parse_ofString] at h ⊢
  rcases tree_cases text.toList with ⟨stop, hfault⟩ | ⟨hsound, -, hname⟩
  · rw [hfault] at h
    exact absurd rfl h
  · exact hsound.grammatical (fun h => absurd h hname) hescape

end DocSignature.JavaScript
