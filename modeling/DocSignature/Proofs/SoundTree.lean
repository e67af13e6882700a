import DocSignature.Proofs.FirstFault
import DocSignature.Proofs.Grammar
import DocSignature.Proofs.SourceOrder
import DocSignature.Proofs.Spans

/-!
# Sound trees

A tree is `Node.Sound` over a text if each of its nodes fits : it is no fault, is flagged if a
child is, holds its children one behind the other, and has the text that goes with its kind
(`Node.Fit`). Such a tree can be built from the bottom, a node over a `Row` of sound ones at a time
(`sound_make`).

A sound tree has what is asked of trees elsewhere. If its root is not flagged, the flags tell of the
faults below (`Node.Sound.flagsDerived`). Its nodes start one behind the other, in full
(`Node.Sound.startsOrdered`) and as a walk comes by them (`Node.Sound.sourceOrdered`). It is made of
the tokens of the grammar (`Node.Sound.tokenized`), and follows the grammar if no escape in the text
takes a line end along (`Node.Sound.grammatical`).
-/

namespace DocSignature

/-- The nodes of a list are not empty, lie between two offsets, and come one behind the other. -/
def Node.InOrder (lo hi : ℕ) : List Node → Prop
  | [] => True
  | n :: rest => lo ≤ n.start ∧ n.start < n.stop ∧ n.stop ≤ hi ∧ InOrder n.stop hi rest

/-- Between two offsets a text has these characters. -/
def Covers (s : List Char) (start stop : ℕ) (t : List Char) : Prop :=
  ∃ front back, s = front ++ (t ++ back) ∧ start = (Utf8.encode front).length ∧
    stop = (Utf8.encode (front ++ t)).length

/-- A node is no fault, is in order with its children, and has the text that goes with its kind. -/
structure Node.Fit (s : List Char) (n : Node) : Prop where
  isFault : n.isFault = false
  flagged : ∀ c ∈ n.children, c.flagged = true → n.flagged = true
  inOrder : Node.InOrder n.start n.stop n.children
  stop_le : n.stop ≤ (Utf8.encode s).length
  parentheses : n.kind = "parenthesized_expression" → n.members ≠ []
  escape : n.kind = "escape_sequence" → ∃ t, Covers s n.start n.stop t ∧ EscapeToken t
  number : n.kind = "number" → ∃ t, Covers s n.start n.stop t ∧ NumberText t

/-- All nodes of a tree fit. -/
def Node.Sound (s : List Char) (n : Node) : Prop := ∀ m, n.Contains m → m.Fit s

/-- Sound nodes that come one behind the other between two offsets. -/
structure Row (s : List Char) (lo hi : ℕ) (l : List Node) : Prop where
  inOrder : Node.InOrder lo hi l
  sound : ∀ n ∈ l, n.Sound s

variable {s : List Char} {lo hi : ℕ} {n : Node} {l l' : List Node}

/-! ## Rows -/

namespace Node.InOrder

theorem mono {hi' : ℕ} (hhi : hi ≤ hi') : ∀ {lo lo' : ℕ} {l : List Node}, lo' ≤ lo →
    InOrder lo hi l → InOrder lo' hi' l
  | _, _, [], _, _ => trivial
  | _, _, _ :: _, hlo, ⟨hstart, hlt, hstop, hrest⟩ =>
    ⟨hlo.trans hstart, hlt, hstop.trans hhi, hrest.mono hhi le_rfl⟩

theorem append {mid mid' : ℕ} (hmid : mid ≤ mid') (hhi : mid ≤ hi) :
    ∀ {lo : ℕ} {l : List Node}, lo ≤ mid' → InOrder lo mid l → InOrder mid' hi l' →
      InOrder lo hi (l ++ l')
  | _, [], hlo, _, h' => h'.mono le_rfl hlo
  | _, _ :: _, _, ⟨hstart, hlt, hstop, hrest⟩, h' =>
    ⟨hstart, hlt, hstop.trans hhi, hrest.append hmid hhi (hstop.trans hmid) h'⟩

theorem start_lt_of_mem {c : Node} : ∀ {lo : ℕ} {l : List Node}, InOrder lo hi l → c ∈ l →
    c.start < c.stop
  | _, _ :: _, ⟨_, hlt, _, hrest⟩, hc => by
    rcases List.mem_cons.mp hc with rfl | hc
    · exact hlt
    · exact hrest.start_lt_of_mem hc

/-- A list in order lies before the end of its last node. -/
theorem upToLast {last : Node} : ∀ {lo : ℕ} {l : List Node}, InOrder lo hi l →
    l.getLast? = some last → InOrder lo last.stop l ∧ lo < last.stop ∧ last.stop ≤ hi
  | _, [n], ⟨hstart, hlt, hstop, _⟩, h => by
    obtain rfl := Option.some.inj h
    exact ⟨⟨hstart, hlt, le_rfl, trivial⟩, hstart.trans_lt hlt, hstop⟩
  | _, n :: m :: rest, ⟨hstart, hlt, _, hrest⟩, h => by
    rw [List.getLast?_cons_cons] at h
    obtain ⟨hbefore, hend, hstop⟩ := hrest.upToLast h
    exact ⟨⟨hstart, hlt, hend.le, hbefore⟩, hstart.trans_lt (hlt.trans hend), hstop⟩

end Node.InOrder

namespace Row

theorem nil : Row s lo hi [] := ⟨trivial, nofun⟩

theorem singleton (h : n.Sound s) (hstart : lo ≤ n.start) (hlt : n.start < n.stop)
    (hstop : n.stop ≤ hi) : Row s lo hi [n] :=
  ⟨⟨hstart, hlt, hstop, trivial⟩, List.forall_mem_singleton.mpr h⟩

theorem mono {lo' hi' : ℕ} (h : Row s lo hi l) (hlo : lo' ≤ lo) (hhi : hi ≤ hi') :
    Row s lo' hi' l :=
  ⟨h.inOrder.mono hhi hlo, h.sound⟩

theorem append {mid mid' : ℕ} (h : Row s lo mid l) (h' : Row s mid' hi l') (hlo : lo ≤ mid')
    (hmid : mid ≤ mid') (hhi : mid ≤ hi) : Row s lo hi (l ++ l') :=
  ⟨h.inOrder.append hmid hhi hlo h'.inOrder, List.forall_mem_append.mpr ⟨h.sound, h'.sound⟩⟩

end Row

/-! ## Making nodes -/

namespace Node

theorem Sound.fit (h : n.Sound s) : n.Fit s := h n (Contains.self n)

theorem sound_iff : n.Sound s ↔ n.Fit s ∧ ∀ c ∈ n.children, c.Sound s := forall_contains_iff

theorem Sound.child (h : n.Sound s) {c : Node} (hc : c ∈ n.children) : c.Sound s :=
  (sound_iff.mp h).2 c hc

end Node

/-- A node over a row is sound if it is no fault and has the text of its kind. -/
theorem sound_make {kind : String} {field : Option String} (h : Row s lo hi l)
    (hhi : hi ≤ (Utf8.encode s).length) (hkind : kind ≠ Node.errorKind)
    (hparentheses : kind = "parenthesized_expression" →
      (l.filter (·.named)).filter (·.kind != "comment") ≠ [])
    (hescape : kind = "escape_sequence" → ∃ t, Covers s lo hi t ∧ EscapeToken t)
    (hnumber : kind = "number" → ∃ t, Covers s lo hi t ∧ NumberText t) :
    (Node.make kind lo hi field true false l).Sound s := by
  refine Node.sound_iff.mpr ⟨?_, h.sound⟩
  exact {
    isFault := by simp [Node.isFault, Node.make, hkind]
    flagged := fun c hc hflagged => by
      have hany : l.any (·.flagged) = true := List.any_eq_true.mpr ⟨c, hc, hflagged⟩
      simp [Node.make, hany]
    inOrder := h.inOrder
    stop_le := hhi
    parentheses := hparentheses
    escape := hescape
    number := hnumber }

/-- The kinds of which nothing is asked but that they are made of nodes in order. -/
def Plain (kind : String) : Prop :=
  kind ∉ [Node.errorKind, "comment", "parenthesized_expression", "escape_sequence", "number"]

instance (kind : String) : Decidable (Plain kind) :=
  inferInstanceAs (Decidable (kind ∉ [_, _, _, _, _]))

theorem Plain.ne_comment {kind : String} (h : Plain kind) : kind ≠ "comment" := by
  rintro rfl
  exact h (by decide)

theorem sound_make_of_plain {kind : String} {field : Option String} (hkind : Plain kind)
    (h : Row s lo hi l) (hhi : hi ≤ (Utf8.encode s).length) :
    (Node.make kind lo hi field true false l).Sound s := by
  simp only [Plain, List.mem_cons, List.not_mem_nil, or_false, not_or] at hkind
  obtain ⟨herror, -, hparentheses, hescape, hnumber⟩ := hkind
  exact sound_make h hhi herror (absurd · hparentheses) (absurd · hescape) (absurd · hnumber)

/-! ## Faults -/

namespace Node

theorem nodes_eq (n : Node) : n.nodes = n :: n.children.flatMap nodes := by
  have among (l : List Node) : (pathsAmong l).map Prod.fst = l.flatMap nodes := by
    induction l with
    | nil => rfl
    | cons c rest ih =>
      rw [pathsAmong, List.map_append, List.map_map, ih, List.flatMap_cons]
      rfl
  rw [nodes, paths_eq, List.map_cons, among]

theorem contains_of_mem_nodes {n m : Node} (h : m ∈ n.nodes) : n.Contains m := by
  induction n using Node.induction with
  | step n ih =>
    rw [nodes_eq, List.mem_cons, List.mem_flatMap] at h
    rcases h with rfl | ⟨c, hc, hm⟩
    · exact Contains.self m
    · exact contains_iff.mpr (Or.inr ⟨c, hc, ih c hc hm⟩)

/-- Below a node that is not flagged no node is. -/
theorem Sound.flagged_eq_false (h : n.Sound s) (hn : n.flagged = false) {m : Node}
    (hm : n.Contains m) : m.flagged = false := by
  induction n using Node.induction with
  | step n ih =>
    rcases contains_iff.mp hm with rfl | ⟨c, hc, hm⟩
    · exact hn
    · refine ih c hc (h.child hc) (Bool.eq_false_iff.mpr fun hflagged => ?_) hm
      rw [h.fit.flagged c hc hflagged] at hn
      cases hn

theorem Sound.flagsDerived (h : n.Sound s) (hn : n.flagged = false) : n.FlagsDerived := by
  intro m hm
  have hcontains := contains_of_mem_nodes hm
  have hnone : m.nodes.any isFault = false := List.any_eq_false.mpr fun f hf => by
    rw [(h f (hcontains.trans (contains_of_mem_nodes hf))).isFault]
    exact Bool.false_ne_true
  rw [h.flagged_eq_false hn hcontains, hnone]

/-! ## Order -/

/-- Nodes below siblings in order start between the same offsets, one behind the other. -/
theorem InOrder.starts : ∀ {lo : ℕ} {l : List Node}, InOrder lo hi l →
    (∀ c ∈ l, c.nodes.Pairwise (fun a b => a.start ≤ b.start) ∧
      ∀ m ∈ c.nodes, c.start ≤ m.start ∧ m.start ≤ c.stop) →
    (l.flatMap nodes).Pairwise (fun a b => a.start ≤ b.start) ∧
      ∀ m ∈ l.flatMap nodes, lo ≤ m.start ∧ m.start ≤ hi
  | _, [], _, _ => by simp
  | lo, c :: rest, ⟨hstart, hlt, hstop, hrest⟩, hl => by
    obtain ⟨hc, hbounds⟩ := hl c List.mem_cons_self
    obtain ⟨hpairs, hbehind⟩ := hrest.starts fun d hd => hl d (List.mem_cons_of_mem c hd)
    rw [List.flatMap_cons, List.pairwise_append]
    refine ⟨⟨hc, hpairs, fun a ha b hb => ?_⟩, fun m hm => ?_⟩
    · exact (hbounds a ha).2.trans (hbehind b hb).1
    · rcases List.mem_append.mp hm with hm | hm
      · have := hbounds m hm
        omega
      · have := hbehind m hm
        omega

/-- Nodes of a sound tree start in it, one behind the other. -/
theorem Sound.starts (h : n.Sound s) (hn : n.start ≤ n.stop) :
    n.nodes.Pairwise (fun a b => a.start ≤ b.start) ∧
      ∀ m ∈ n.nodes, n.start ≤ m.start ∧ m.start ≤ n.stop := by
  induction n using Node.induction with
  | step n ih =>
    obtain ⟨hpairs, hbounds⟩ := h.fit.inOrder.starts fun c hc =>
      ih c hc (h.child hc) (h.fit.inOrder.start_lt_of_mem hc).le
    rw [nodes_eq, List.pairwise_cons]
    refine ⟨⟨fun m hm => (hbounds m hm).1, hpairs⟩, fun m hm => ?_⟩
    rcases List.mem_cons.mp hm with rfl | hm
    · exact ⟨le_rfl, hn⟩
    · exact hbounds m hm

theorem Sound.startsOrdered (h : n.Sound s) : n.StartsOrdered := by
  obtain ⟨hpairs, hbounds⟩ := h.fit.inOrder.starts fun c hc =>
    (h.child hc).starts (h.fit.inOrder.start_lt_of_mem hc).le
  rw [StartsOrdered, nodes_eq, List.pairwise_cons]
  exact ⟨fun m hm => (hbounds m hm).1, hpairs⟩

/-- A walk comes by some of the nodes, in the same order. -/
theorem visited_sublist_nodes (n : Node) : n.visited.Sublist n.nodes := by
  induction n using Node.induction with
  | step n ih =>
    have among : ∀ {i : ℕ} {l : List Node}, (∀ k, n.children[i + k]? = l[k]?) →
        (∀ c ∈ l, c ∈ n.children) →
          ((visitsFrom i l).filterMap n.nodeAt?).Sublist (l.flatMap nodes) := by
      intro i l
      induction l generalizing i with
      | nil => simp [visitsFrom]
      | cons c rest ihl =>
        intro hl hmem
        have hi : n.children[i]? = some c := by simpa using hl 0
        have hrest := ihl (i := i + 1)
          (fun k => by simpa [Nat.add_comm 1 k, Nat.add_assoc] using hl (k + 1))
          fun d hd => hmem d (List.mem_cons_of_mem c hd)
        rw [visitsFrom, List.filterMap_append, List.flatMap_cons]
        refine List.Sublist.append ?_ hrest
        split
        · have hat : (fun p => n.nodeAt? (i :: p)) = c.nodeAt? := by
            funext p
            simp [nodeAt?, hi]
          rw [List.filterMap_map, Function.comp_def, hat]
          exact ih c (hmem c List.mem_cons_self)
        · exact List.nil_sublist _
    rw [visited, visits_eq, List.filterMap_cons, nodes_eq]
    exact (among (by simp) fun c hc => hc).cons_cons n

theorem Sound.sourceOrdered (h : n.Sound s) : n.SourceOrdered :=
  h.startsOrdered.sublist n.visited_sublist_nodes

end Node

/-! ## Texts -/

namespace Utf8

/-- Inside a character the reader has something left to give. -/
theorem decodeFrom_inside_ne_nil : ∀ (bs : List UInt8) (more : ℕ) (lo hi : UInt8) (value : ℕ),
    decodeFrom (.inside more lo hi value) bs ≠ []
  | [], _, _, _, _ => by simp [decodeFrom]
  | b :: bs, more, lo, hi, value => by
    rw [decodeFrom, step]
    split
    · cases more with
      | zero => simp
      | succ more => simpa using decodeFrom_inside_ne_nil bs more _ _ _
    · simp

/-- An octet that leaves the reader between characters completes one. -/
theorem first_ne_nil (b : UInt8) : (first b).2 = .between → (first b).1 ≠ [] := by
  have hite {p : Prop} [Decidable p] {x y : List Char × Reading}
      (hx : x.2 = .between → x.1 ≠ []) (hy : y.2 = .between → y.1 ≠ []) :
      (if p then x else y).2 = .between → (if p then x else y).1 ≠ [] := by
    split_ifs
    · exact hx
    · exact hy
  have hone (c : Char) : ([c], Reading.between).2 = .between → ([c], Reading.between).1 ≠ [] :=
    fun _ => List.cons_ne_nil _ _
  refine hite (hone _) (hite (hone _) ?_)
  exact hite nofun (hite nofun (hite nofun (hite nofun (hite nofun (hite nofun
    (hite nofun (hone _)))))))

theorem decode_ne_nil {bs : List UInt8} (h : bs ≠ []) : decode bs ≠ [] := by
  obtain ⟨b, bs, rfl⟩ := List.exists_cons_of_ne_nil h
  rw [decode, decodeFrom, step]
  intro hnil
  obtain ⟨hfirst, hrest⟩ := List.append_eq_nil_iff.mp hnil
  cases hstate : (first b).2 with
  | between => exact first_ne_nil b hstate hfirst
  | inside more lo hi value =>
    rw [hstate] at hrest
    exact decodeFrom_inside_ne_nil bs more lo hi value hrest

end Utf8

theorem text_ne_of_lt {start stop : ℕ} (h : start < stop) (hstop : stop ≤ (Utf8.encode s).length) :
    (Source.ofChars s).text start stop ≠ "" := by
  intro hempty
  have hlist := congrArg String.toList hempty
  rw [Source.text, String.toList_ofList] at hlist
  refine Utf8.decode_ne_nil (fun hnil => ?_) hlist
  have := congrArg List.length hnil
  simp only [List.length_drop, List.length_take, List.length_nil, Source.ofChars] at this
  omega

theorem Covers.text {start stop : ℕ} {t : List Char} (h : Covers s start stop t) :
    ((Source.ofChars s).text start stop).toList = t := by
  obtain ⟨front, back, rfl, rfl, rfl⟩ := h
  have hbetween := Source.text_between t (Utf8.encode front) (Utf8.encode back)
  rw [Source.ofChars, Utf8.encode_append, Utf8.encode_append, Utf8.encode_append,
    List.length_append, hbetween, String.toList_ofList]

theorem Covers.isInfix {start stop : ℕ} {t : List Char} (h : Covers s start stop t) : t <:+: s := by
  obtain ⟨front, back, rfl, -⟩ := h
  exact ⟨front, back, by simp⟩

namespace Node

/-- Below its root a sound tree has no empty node. -/
theorem Sound.start_lt_of_contains (h : n.Sound s) {m : Node} (hm : n.Contains m) :
    m = n ∨ m.start < m.stop := by
  induction n using Node.induction with
  | step n ih =>
    rcases contains_iff.mp hm with rfl | ⟨c, hc, hm⟩
    · exact Or.inl rfl
    · rcases ih c hc (h.child hc) hm with rfl | hlt
      · exact Or.inr (h.fit.inOrder.start_lt_of_mem hc)
      · exact Or.inr hlt

/-- A sound tree is made of the tokens of the grammar, if its root is not an empty name. -/
theorem Sound.tokenized (h : n.Sound s)
    (hname : n.isName ∨ n.field = some "name" ∨ n.field = some "property" → n.start < n.stop) :
    Tokenized (.ofChars s) n where
  name m hm hfield := by
    refine text_ne_of_lt ?_ (h m hm).stop_le
    rcases h.start_lt_of_contains hm with rfl | hlt
    · exact hname hfield
    · exact hlt
  parentheses m hm := (h m hm).parentheses
  escape m hm hkind := by
    obtain ⟨t, ht, htoken⟩ := (h m hm).escape hkind
    rwa [Node.text, ht.text]
  number m hm hkind := by
    obtain ⟨t, ht, hnumber⟩ := (h m hm).number hkind
    rwa [Node.text, ht.text]

/-- It follows the grammar if no escape in the text takes a line end along, other than that of two
characters. -/
theorem Sound.grammatical (h : n.Sound s)
    (hname : n.isName ∨ n.field = some "name" ∨ n.field = some "property" → n.start < n.stop)
    (hescape : ∀ t, t <:+: s → EscapeToken t → EscapeText t) : Grammatical (.ofChars s) n where
  name := (h.tokenized hname).name
  parentheses := (h.tokenized hname).parentheses
  escape m hm hkind := by
    obtain ⟨t, ht, htoken⟩ := (h m hm).escape hkind
    rw [Node.text, ht.text]
    exact hescape t ht.isInfix htoken
  number := (h.tokenized hname).number

end Node

end DocSignature
