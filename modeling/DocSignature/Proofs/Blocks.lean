import DocSignature.Proofs.Placeholders
import DocSignature.Proofs.Response
import DocSignature.Proofs.Support

/-!
# Entries in blocks

The entries of a parameter list come in blocks, one for each parameter and in their order
(`Blocks`). The block of a parameter that is not destructured is one entry without a parent, named
and typed after the node (`Entry`). The block of a destructured object is a placeholder and an entry
for each of its members, which have the name of the placeholder for their parent (`Block.object`).
Which placeholder that is depends on nothing but how many objects come before : parameters of
other kinds do not count.

`simplifyFrom_blocks` finds the blocks along the list. What holds of each block is then summed up
over all of them : a block has one entry without a parent (`Blocks.countP_parent`), and the
placeholders are those of the objects, in order (`Blocks.placeholders`). The main statements are
`simplify_in_blocks` and, where the placeholders are numbered, `parent_names_own_placeholder`.
-/

namespace DocSignature

/-! ## Names of placeholders -/

theorem placeholder_one : placeholder false 1 = "Unknown" := rfl

theorem placeholder_reused (k : ℕ) : placeholder true k = "Unknown" := rfl

theorem placeholder_numbered {k : ℕ} (hk : 2 ≤ k) :
    placeholder false k = "Unknown" ++ toString k := by
  have hnumbered : ¬(false || decide (k ≤ 1)) := by
    rw [Bool.false_or, decide_eq_true_iff]
    omega
  rw [placeholder, if_neg hnumbered]
  rfl

/-- The numbers tell the placeholders apart, and the first has none. -/
theorem placeholder_injective {j k : ℕ} (hj : 1 ≤ j) (hk : 1 ≤ k)
    (h : placeholder false j = placeholder false k) : j = k := by
  have hnumber {m : ℕ} (hm : 1 ≤ m) : (placeholder false m).toList =
      "Unknown".toList ++ if m = 1 then [] else Numeral.decimal m := by
    by_cases hm1 : m = 1
    · rw [hm1]
      rfl
    · rw [placeholder_numbered (by omega), String.toList_append, if_neg hm1]
      exact congrArg _ String.toList_ofList
  have hlists := congrArg String.toList h
  rw [hnumber hj, hnumber hk, List.append_cancel_left_eq] at hlists
  split_ifs at hlists with hj1 hk1 hk1
  · rw [hj1, hk1]
  · exact absurd hlists.symm (Decimal.decimal_ne_nil k)
  · exact absurd hlists (Decimal.decimal_ne_nil j)
  · rw [← Decimal.digitsValue_decimal j, hlists, Decimal.digitsValue_decimal]

/-! ## Shapes -/

/-- A default belongs to a type : a text, a whole number or a finite one that is not whole, and the
two texts for arrays and objects. -/
inductive TypedDefault : ParameterType → Default → Prop
  | string (t : Text) : TypedDefault .string (.text t)
  | whole (n : ℤ) : TypedDefault .number (.number (.whole n))
  | fraction (negative : Bool) {size : Magnitude} (fraction : ∀ n : ℤ, size.value ≠ n) :
      TypedDefault .number (.number (.float (.finite negative size)))
  | array : TypedDefault .array (.text "[]")
  | object : TypedDefault .object (.text "\x7b\x7d")

/-- What may be said of a parameter that is not destructured : nothing but its name, a type with a
default, or that it is a rest. -/
inductive Shape : Option ParameterType → Option Default → Prop
  | name : Shape none none
  | default {type : ParameterType} {v : Default} (typed : TypedDefault type v) :
      Shape (some type) (some v)
  | rest : Shape (some .array) none

theorem Shape.isPlaceholder {p : Parameter} (h : Shape p.type p.default) :
    p.isPlaceholder = false := by
  unfold Parameter.isPlaceholder
  generalize p.type = type, p.default = default at h
  cases h with
  | name => rfl
  | default typed => exact Bool.and_false _
  | rest => rfl

theorem Parameter.isPlaceholder_of_object {p : Parameter} (type : p.type = some .object)
    (default : p.default = none) : p.isPlaceholder := by
  simp [isPlaceholder, type, default]

/-! ## Entries -/

/-- An entry describes a node that is not destructured. Its parent is left open. -/
inductive Entry (src : Source) (n : Node) (p : Parameter) : Prop
  | name (kind : n.kind ∈ nameKinds) (name : p.name = n.text src) (type : p.type = none)
      (default : p.default = none)
  | default {left right value : Node} {type : ParameterType} {v : Default}
      (kind : n.kind ∈ defaultKinds) (hleft : n.child? "left" = some left)
      (hright : n.child? "right" = some right) (inside : right.Inside value)
      (word : value.kind = type.word) (typed : TypedDefault type v) (name : p.name = left.text src)
      (htype : p.type = some type) (hdefault : p.default = some v)
  | rest {first : Node} (kind : n.kind = "rest_pattern") (hfirst : n.members.head? = some first)
      (name : p.name = first.text src) (type : p.type = some .array) (default : p.default = none)

theorem Entry.shape {src : Source} {n : Node} {p : Parameter} (h : Entry src n p) :
    Shape p.type p.default := by
  cases h with
  | name _ _ type default =>
    rw [type, default]
    exact .name
  | default _ _ _ _ _ typed _ htype hdefault =>
    rw [htype, hdefault]
    exact .default typed
  | rest _ _ _ type default =>
    rw [type, default]
    exact .rest

/-- What a member of a destructured object binds : a pair its value, any other member itself. -/
inductive Node.Binds (n : Node) : Node → Prop
  | pair {value : Node} (kind : n.kind = "pair_pattern") (hvalue : n.child? "value" = some value) :
      Binds n value
  | self (kind : n.kind ≠ "pair_pattern") : Binds n n

/-- An entry describes a member of the destructured object that has a name. -/
structure MemberEntry (src : Source) (parent : String) (n : Node) (p : Parameter) : Prop where
  parent : p.parent = some parent
  entry : ∃ value, n.Binds value ∧ Entry src value p

/-- The entries of one parameter, where `name` is that of the next placeholder. -/
inductive Block (src : Source) (name : String) (n : Node) : List Parameter → Prop
  | plain {p : Parameter} (kind : n.kind ≠ "object_pattern") (parent : p.parent = none)
      (entry : Entry src n p) : Block src name n [p]
  | object {head : Parameter} {entries : List Parameter} (kind : n.kind = "object_pattern")
      (hname : head.name = name) (parent : head.parent = none) (type : head.type = some .object)
      (default : head.default = none)
      (members : List.Forall₂ (MemberEntry src name) n.members entries) :
      Block src name n (head :: entries)

section Simplify

variable {src : Source}

theorem typedDefault_defaultValue {value : Node} {typed : ParameterType × Default}
    (h : defaultValue src value = .ok typed) :
    value.kind = typed.1.word ∧ TypedDefault typed.1 typed.2 := by
  unfold defaultValue at h
  split at h
  · next kind =>
    obtain ⟨t, -, h⟩ := bind_eq_ok_iff.mp h
    rw [← pure_eq_ok_iff.mp h]
    exact ⟨kind, .string t⟩
  · next kind =>
    obtain ⟨n, hn, h⟩ := bind_eq_ok_iff.mp h
    rw [← pure_eq_ok_iff.mp h]
    refine ⟨kind, ?_⟩
    cases Number.canonical_ofLiteral hn with
    | whole n => exact .whole n
    | float negative _ hfraction =>
      exact .fraction negative (Magnitude.value_ne_of_whole? hfraction)
  · next kind =>
    rw [← Except.ok.inj h]
    exact ⟨kind, .array⟩
  · next kind =>
    rw [← Except.ok.inj h]
    exact ⟨kind, .object⟩
  · exact absurd h unknown_ne_ok

theorem simplifyDefault_entry {n : Node} {p : Parameter} (kind : n.kind ∈ defaultKinds)
    (h : simplifyDefault src n = .ok p) : Entry src n p := by
  unfold simplifyDefault at h
  split at h
  · next left right hleft hright =>
    split at h
    · exact absurd h unknown_ne_ok
    · obtain ⟨value, hvalue, h⟩ := bind_eq_ok_iff.mp h
      obtain ⟨typed, htyped, h⟩ := bind_eq_ok_iff.mp h
      obtain ⟨name, -, htype, hdefault⟩ := namedBy_eq_ok_iff.mp h
      obtain ⟨word, typed⟩ := typedDefault_defaultValue htyped
      exact .default kind hleft hright (Node.inside_of_unwrap hvalue) word typed name htype hdefault
  · exact absurd h unknown_ne_ok

theorem simplifyRest_entry {n : Node} {p : Parameter} (kind : n.kind = "rest_pattern")
    (h : simplifyRest src n = .ok p) : Entry src n p := by
  unfold simplifyRest at h
  split at h
  · exact absurd h unknown_ne_ok
  · next first rest hmembers =>
    split at h
    · obtain ⟨name, -, type, default⟩ := namedBy_eq_ok_iff.mp h
      exact .rest kind (by rw [hmembers]; rfl) name type default
    · exact absurd h unknown_ne_ok

theorem simplifyPlain_entry {n : Node} {p : Parameter} (h : simplifyPlain src n = .ok p) :
    Entry src n p := by
  unfold simplifyPlain at h
  split_ifs at h with hname hdefault hrest
  · obtain ⟨name, -, type, default⟩ := namedBy_eq_ok_iff.mp h
    exact .name (Node.isName_iff.mp hname) name type default
  · exact simplifyDefault_entry (List.contains_iff_mem.mp hdefault) h
  · exact simplifyRest_entry (by simpa using hrest) h
  · exact absurd h unknown_ne_ok

theorem Entry.withParent {n : Node} {p : Parameter} (h : Entry src n p) (parent : String) :
    Entry src n (p.withParent parent) := by
  cases h with
  | name kind name type default => exact .name kind name type default
  | default kind hleft hright inside word typed name htype hdefault =>
    exact .default kind hleft hright inside word typed name htype hdefault
  | rest kind hfirst name type default => exact .rest kind hfirst name type default

theorem simplifyMember_entry {parent : String} {n : Node} {p : Parameter}
    (h : simplifyMember src parent n = .ok p) : MemberEntry src parent n p := by
  have hbound {value : Node} (hvalue : n.Binds value)
      (h : (simplifyPlain src value).map (·.withParent parent) = .ok p) :
      MemberEntry src parent n p := by
    obtain ⟨q, hq, rfl⟩ := map_eq_ok_iff.mp h
    exact ⟨rfl, value, hvalue, (simplifyPlain_entry hq).withParent parent⟩
  by_cases kind : n.kind = "pair_pattern"
  · cases hvalue : n.child? "value" with
    | none =>
      rw [simplifyMember_of_bare kind hvalue] at h
      exact absurd h unknown_ne_ok
    | some value =>
      rw [simplifyMember_of_pair kind hvalue] at h
      exact hbound (.pair kind hvalue) h
  · rw [simplifyMember_of_plain kind] at h
    exact hbound (.self kind) h

theorem simplifyMembers_entries {parent : String} :
    ∀ {l : List Node} {ps : List Parameter}, simplifyMembers src parent l = .ok ps →
      List.Forall₂ (MemberEntry src parent) l ps
  | [], ps, h => by
    rw [← Except.ok.inj h]
    exact .nil
  | n :: rest, ps, h => by
    obtain ⟨q, hq, h⟩ := bind_eq_ok_iff.mp h
    obtain ⟨qs, hqs, h⟩ := bind_eq_ok_iff.mp h
    rw [← pure_eq_ok_iff.mp h]
    exact .cons (simplifyMember_entry hq) (simplifyMembers_entries hqs)

theorem simplifyObject_block {parent : String} {n : Node} {ps : List Parameter}
    (kind : n.kind = "object_pattern") (h : simplifyObject src parent n = .ok ps) :
    Block src parent n ps := by
  obtain ⟨head, hhead, h⟩ := bind_eq_ok_iff.mp h
  obtain ⟨entries, hentries, h⟩ := bind_eq_ok_iff.mp h
  obtain ⟨hname, hparent, htype, hdefault⟩ :=
    Parameter.make_eq_ok_iff.mp (mapError_eq_ok_iff.mp hhead)
  rw [← pure_eq_ok_iff.mp h]
  exact .object kind hname hparent htype hdefault (simplifyMembers_entries hentries)

end Simplify

/-! ## One block -/

/-- Whether the node is a destructured object. -/
def Node.isObject (n : Node) : Bool := n.kind == "object_pattern"

theorem Node.isObject_iff {n : Node} : n.isObject ↔ n.kind = "object_pattern" := by
  simp [Node.isObject]

theorem forall_of_memberEntries {src : Source} {parent : String} {l : List Node}
    {ps : List Parameter} (h : List.Forall₂ (MemberEntry src parent) l ps) :
    ∀ p ∈ ps, p.parent = some parent ∧ Shape p.type p.default := by
  induction h with
  | nil => simp
  | cons hp _ ih =>
    obtain ⟨value, -, entry⟩ := hp.entry
    exact List.forall_mem_cons.mpr ⟨⟨hp.parent, entry.shape⟩, ih⟩

namespace Block

variable {src : Source} {name : String} {n : Node} {block : List Parameter}

theorem shape (h : Block src name n block) :
    ∀ p ∈ block, p.isPlaceholder = false → Shape p.type p.default := by
  cases h with
  | plain kind parent entry => exact List.forall_mem_singleton.mpr fun _ => entry.shape
  | object kind hname parent type default members =>
    refine List.forall_mem_cons.mpr ⟨fun hplaceholder => ?_, fun p hp _ => ?_⟩
    · rw [Parameter.isPlaceholder_of_object type default] at hplaceholder
      cases hplaceholder
    · exact (forall_of_memberEntries members p hp).2

/-- A block has one entry without a parent. -/
theorem countP_parent (h : Block src name n block) : block.countP (·.parent.isNone) = 1 := by
  cases h with
  | plain kind parent entry => simp [parent]
  | @object head entries kind hname parent type default members =>
    have hentries : entries.countP (·.parent.isNone) = 0 := by
      rw [List.countP_eq_zero]
      intro p hp
      simp [(forall_of_memberEntries members p hp).1]
    rw [List.countP_cons, hentries, parent]
    rfl

/-- A block has a placeholder only if it is that of an object. -/
theorem placeholders (h : Block src name n block) :
    (block.filter (·.isPlaceholder)).map (·.name) = if n.isObject then [name] else [] := by
  cases h with
  | plain kind parent entry =>
    rw [if_neg (mt Node.isObject_iff.mp kind), List.filter_singleton, entry.shape.isPlaceholder]
    rfl
  | @object head entries kind hname parent type default members =>
    have hentries : entries.filter (·.isPlaceholder) = [] := by
      rw [List.filter_eq_nil_iff]
      intro p hp
      simp [(forall_of_memberEntries members p hp).2.isPlaceholder]
    have hhead : head.isPlaceholder := Parameter.isPlaceholder_of_object type default
    rw [if_pos (Node.isObject_iff.mpr kind), List.filter_cons_of_pos hhead, hentries]
    simp [hname]

/-- An entry with a parent is in the block of an object, and the parent is the placeholder there. -/
theorem head_of_parent (h : Block src name n block) {p : Parameter} (hp : p ∈ block)
    {parent : String} (hparent : p.parent = some parent) :
    n.kind = "object_pattern" ∧ parent = name ∧
      ∃ head, block.head? = some head ∧ head.name = name ∧ head.parent = none ∧
        head.isPlaceholder := by
  cases h with
  | plain kind hnone entry =>
    rw [List.mem_singleton.mp hp, hnone] at hparent
    cases hparent
  | @object head entries kind hname hnone type default members =>
    refine ⟨kind, ?_, head, rfl, hname, hnone, Parameter.isPlaceholder_of_object type default⟩
    rcases List.mem_cons.mp hp with rfl | hp
    · rw [hnone] at hparent
      cases hparent
    · rw [(forall_of_memberEntries members p hp).1] at hparent
      exact (Option.some.inj hparent).symm

/-- An entry without a parent is the placeholder of an object, or describes a node of another
kind. -/
theorem of_parent_none (h : Block src name n block) {p : Parameter} (hp : p ∈ block)
    (hparent : p.parent = none) :
    n.kind = "object_pattern" ∧ block.head? = some p ∧ p.name = name ∨
      n.kind ≠ "object_pattern" ∧ Entry src n p := by
  cases h with
  | plain kind hnone entry =>
    rw [List.mem_singleton.mp hp]
    exact Or.inr ⟨kind, entry⟩
  | @object head entries kind hname hnone type default members =>
    rcases List.mem_cons.mp hp with rfl | hp
    · exact Or.inl ⟨kind, rfl, hname⟩
    · rw [(forall_of_memberEntries members p hp).1] at hparent
      cases hparent

end Block

/-! ## All blocks -/

/-- The entries of parameters in blocks, where the first object among them is the `k`-th. The name
of a placeholder counts the objects before it. -/
structure Blocks (reuse : Bool) (src : Source) (k : ℕ) (l : List Node)
    (blocks : List (List Parameter)) : Prop where
  length : blocks.length = l.length
  block : ∀ i n block, l[i]? = some n → blocks[i]? = some block →
    Block src (placeholder reuse (k + (l.take i).countP Node.isObject)) n block

section Blocks

variable {reuse : Bool} {src : Source} {k : ℕ}

theorem blocks_nil : Blocks reuse src k [] [] :=
  ⟨rfl, by simp⟩

/-- Only an object moves the count on. -/
theorem blocks_cons_iff {n : Node} {rest : List Node} {block : List Parameter}
    {blocks : List (List Parameter)} :
    Blocks reuse src k (n :: rest) (block :: blocks) ↔
      Block src (placeholder reuse k) n block ∧
        Blocks reuse src (if n.isObject then k + 1 else k) rest blocks := by
  have hcount (i : ℕ) : k + ((n :: rest).take (i + 1)).countP Node.isObject =
      (if n.isObject then k + 1 else k) + (rest.take i).countP Node.isObject := by
    rw [List.take_succ_cons, List.countP_cons]
    split_ifs <;> omega
  constructor
  · rintro ⟨hlength, hblock⟩
    refine ⟨hblock 0 n block rfl rfl, Nat.succ.inj hlength, fun i m other hm hother => ?_⟩
    rw [← hcount]
    exact hblock (i + 1) m other hm hother
  · rintro ⟨hblock, hlength, hblocks⟩
    refine ⟨congrArg Nat.succ hlength, fun i m other hm hother => ?_⟩
    cases i with
    | zero =>
      rw [← Option.some.inj hm, ← Option.some.inj hother]
      exact hblock
    | succ i =>
      rw [hcount]
      exact hblocks i m other hm hother

/-- The blocks are found along the list. -/
theorem simplifyFrom_blocks :
    ∀ {k : ℕ} {l : List Node} {ps : List Parameter}, simplifyFrom reuse src k l = .ok ps →
      ∃ blocks, ps = blocks.flatten ∧ Blocks reuse src k l blocks
  | _, [], ps, h => ⟨[], (Except.ok.inj h).symm, blocks_nil⟩
  | k, n :: rest, ps, h => by
    rw [simplifyFrom] at h
    split_ifs at h with kind
    · obtain ⟨block, hblock, h⟩ := bind_eq_ok_iff.mp h
      obtain ⟨qs, hqs, h⟩ := bind_eq_ok_iff.mp h
      obtain ⟨blocks, rfl, hblocks⟩ := simplifyFrom_blocks hqs
      refine ⟨block :: blocks, (pure_eq_ok_iff.mp h).symm, blocks_cons_iff.mpr ⟨?_, ?_⟩⟩
      · exact simplifyObject_block (by simpa using kind) hblock
      · have hobject : n.isObject := kind
        rwa [if_pos hobject]
    · obtain ⟨p, hp, h⟩ := bind_eq_ok_iff.mp h
      obtain ⟨qs, hqs, h⟩ := bind_eq_ok_iff.mp h
      obtain ⟨blocks, rfl, hblocks⟩ := simplifyFrom_blocks hqs
      refine ⟨[p] :: blocks, (pure_eq_ok_iff.mp h).symm, blocks_cons_iff.mpr ⟨?_, ?_⟩⟩
      · exact .plain (by simpa using kind) (simplifyPlain_plain hp).1 (simplifyPlain_entry hp)
      · have hobject : ¬n.isObject := kind
        rwa [if_neg hobject]

end Blocks

/-- Of two objects the first has the smaller number. -/
theorem countP_take_lt {l : List Node} {i j : ℕ} {n : Node} (hn : l[i]? = some n)
    (hobject : n.isObject) (hij : i < j) :
    (l.take i).countP Node.isObject < (l.take j).countP Node.isObject := by
  have hsucc : (l.take (i + 1)).countP Node.isObject = (l.take i).countP Node.isObject + 1 := by
    rw [List.take_add_one, hn, Option.toList_some, List.countP_append, List.countP_singleton,
      if_pos hobject]
  have hle : (l.take (i + 1)).countP Node.isObject ≤ (l.take j).countP Node.isObject :=
    (List.take_sublist_take_left hij).countP_le
  omega

theorem filter_name_eq_singleton {ps : List Parameter} (hnodup : (ps.map (·.name)).Nodup)
    {p : Parameter} (hp : p ∈ ps) : ps.filter (·.name == p.name) = [p] := by
  obtain ⟨before, after, rfl⟩ := List.append_of_mem hp
  rw [List.map_append, List.map_cons, List.nodup_middle, List.nodup_cons] at hnodup
  have hother : ∀ q ∈ before ++ after, ¬(q.name == p.name) := by
    intro q hq heq
    refine hnodup.1 ?_
    rw [← eq_of_beq heq, ← List.map_append]
    exact List.mem_map_of_mem hq
  rw [List.forall_mem_append] at hother
  rw [List.filter_append, List.filter_eq_nil_iff.mpr hother.1, List.filter_cons_of_pos (by simp),
    List.filter_eq_nil_iff.mpr hother.2, List.nil_append]

namespace Blocks

variable {reuse : Bool} {src : Source} {k : ℕ} {l : List Node} {blocks : List (List Parameter)}

/-- Induction along the parameters. -/
theorem induction
    {motive : ∀ k l blocks, Blocks reuse src k l blocks → Prop}
    (nil : ∀ k, motive k [] [] blocks_nil)
    (cons : ∀ k n rest block blocks (hblock : Block src (placeholder reuse k) n block)
      (hblocks : Blocks reuse src (if n.isObject then k + 1 else k) rest blocks),
      motive _ rest blocks hblocks →
      motive k (n :: rest) (block :: blocks) (blocks_cons_iff.mpr ⟨hblock, hblocks⟩))
    {k : ℕ} {l : List Node} {blocks : List (List Parameter)} (h : Blocks reuse src k l blocks) :
    motive k l blocks h := by
  induction l generalizing k blocks with
  | nil =>
    obtain rfl := List.length_eq_zero_iff.mp h.length
    exact nil k
  | cons n rest ih =>
    obtain ⟨block, blocks, rfl⟩ := List.exists_cons_of_length_eq_add_one h.length
    obtain ⟨hblock, hblocks⟩ := blocks_cons_iff.mp h
    exact cons k n rest block blocks hblock hblocks (ih hblocks)

/-- There are as many entries without a parent as there are parameters. -/
theorem countP_parent (h : Blocks reuse src k l blocks) :
    blocks.flatten.countP (·.parent.isNone) = l.length := by
  induction h using Blocks.induction with
  | nil k => rfl
  | cons k n rest block blocks hblock _ ih =>
    rw [List.flatten_cons, List.countP_append, hblock.countP_parent, ih, List.length_cons, add_comm]

theorem shape (h : Blocks reuse src k l blocks) :
    ∀ p ∈ blocks.flatten, p.isPlaceholder = false → Shape p.type p.default := by
  induction h using Blocks.induction with
  | nil k => simp
  | cons k n rest block blocks hblock _ ih =>
    rw [List.flatten_cons, List.forall_mem_append]
    exact ⟨hblock.shape, ih⟩

/-- The placeholders are those of the objects, in order. -/
theorem placeholders (h : Blocks reuse src k l blocks) :
    (blocks.flatten.filter (·.isPlaceholder)).map (·.name) =
      (List.range' k (l.countP Node.isObject)).map (placeholder reuse) := by
  induction h using Blocks.induction with
  | nil k => rfl
  | cons k n rest block blocks hblock _ ih =>
    rw [List.flatten_cons, List.filter_append, List.map_append, hblock.placeholders, ih,
      List.countP_cons]
    split_ifs with kind
    · rfl
    · rfl

/-- The placeholders that are numbered have different names. -/
theorem filter_placeholder (h : Blocks false src 1 l blocks) {p : Parameter}
    (hp : p ∈ blocks.flatten) (hplaceholder : p.isPlaceholder) :
    blocks.flatten.filter (fun q => q.name == p.name && q.isPlaceholder) = [p] := by
  have hnodup : ((blocks.flatten.filter (·.isPlaceholder)).map (·.name)).Nodup := by
    rw [h.placeholders]
    refine (List.nodup_range').map_on fun j hj k hk => ?_
    exact placeholder_injective (List.mem_range'_1.mp hj).1 (List.mem_range'_1.mp hk).1
  have hmem : p ∈ blocks.flatten.filter (·.isPlaceholder) := List.mem_filter.mpr ⟨hp, hplaceholder⟩
  rw [← List.filter_filter, filter_name_eq_singleton hnodup hmem]

end Blocks

/-- Objects whose placeholders have the same name stand in the same place. -/
theorem eq_of_placeholder_eq {l : List Node} {i j : ℕ} {n m : Node} (hn : l[i]? = some n)
    (hm : l[j]? = some m) (hnobject : n.isObject) (hmobject : m.isObject)
    (h : placeholder false (1 + (l.take i).countP Node.isObject) =
      placeholder false (1 + (l.take j).countP Node.isObject)) : i = j := by
  have hcount := placeholder_injective (by omega) (by omega) h
  rcases lt_trichotomy i j with hij | rfl | hji
  · have := countP_take_lt hn hnobject hij
    omega
  · rfl
  · have := countP_take_lt hm hmobject hji
    omega

/-! ## Whole lists -/

/-- The entries of a parameter list are those of its parameters, block by block. The placeholders
are `Unknown`, `Unknown2`, `Unknown3` and so on, which are all different, or `Unknown` each time. As
many entries as there are parameters have no parent, and an entry that is no placeholder has nothing
but a name, a default that belongs to its type, or the type of a rest. -/
theorem simplify_in_blocks (reuse : Bool) (src : Source) (params : List Node) (ps : List Parameter)
    (h : simplify reuse src params = .ok ps) :
    (∃ blocks, ps = blocks.flatten ∧ Blocks reuse src 1 params blocks) ∧
      (∀ k, placeholder true k = "Unknown") ∧ placeholder false 1 = "Unknown" ∧
      (∀ k, 2 ≤ k → placeholder false k = "Unknown" ++ toString k) ∧
      (∀ j k, 1 ≤ j → 1 ≤ k → placeholder false j = placeholder false k → j = k) ∧
      ps.countP (·.parent.isNone) = params.length ∧
      (ps.filter (·.isPlaceholder)).map (·.name) =
        (List.range' 1 (params.countP Node.isObject)).map (placeholder reuse) ∧
      ∀ p ∈ ps, p.isPlaceholder = false → Shape p.type p.default := by
  obtain ⟨blocks, rfl, hblocks⟩ := simplifyFrom_blocks h
  exact ⟨⟨blocks, rfl, hblocks⟩, placeholder_reused, placeholder_one,
    fun k hk => placeholder_numbered hk, fun j k hj hk => placeholder_injective hj hk,
    hblocks.countP_parent, hblocks.placeholders, hblocks.shape⟩

/-- The source of `mixedParameters`. -/
def mixedSource : Source := .ofString "(u, \x7bv: w = 0.5, ...s\x7d, t = [], \x7bz\x7d)"

/-- Parameters of all kinds, with two objects among them. -/
def mixedParameters : List Node :=
  [.make "identifier" 1 2 none true false [],
    .make "object_pattern" 4 22 none true false
      [.make "pair_pattern" 5 15 none true false
        [.make "property_identifier" 5 6 (some "key") true false [],
          .make "assignment_pattern" 8 15 (some "value") true false
            [.make "identifier" 8 9 (some "left") true false [],
              .make "number" 12 15 (some "right") true false []]],
        .make "rest_pattern" 17 21 none true false
          [.make "identifier" 20 21 none true false []]],
    .make "assignment_pattern" 24 30 none true false
      [.make "identifier" 24 25 (some "left") true false [],
        .make "array" 28 30 (some "right") true false []],
    .make "object_pattern" 32 35 none true false
      [.make "shorthand_property_identifier_pattern" 33 34 none true false []]]

/-- The entries of `mixedParameters`. -/
def mixedEntries : List Parameter :=
  [{ name := "u", name_ne := by decide },
    { name := "Unknown", type := some .object, name_ne := by decide },
    { name := "w", parent := some "Unknown", type := some .number,
      default := some (.number (.float (.finite false ⟨0x10000000000000, -53⟩))),
      name_ne := by decide },
    { name := "s", parent := some "Unknown", type := some .array, name_ne := by decide },
    { name := "t", type := some .array, default := some (.text "[]"), name_ne := by decide },
    { name := "Unknown2", type := some .object, name_ne := by decide },
    { name := "z", parent := some "Unknown2", name_ne := by decide }]

/-- The four parameters give seven entries in four blocks. -/
theorem simplify_mixedParameters :
    simplify false mixedSource mixedParameters = .ok mixedEntries ∧
      (∃ blocks, mixedEntries = blocks.flatten ∧
        Blocks false mixedSource 1 mixedParameters blocks) ∧
      mixedEntries.countP (·.parent.isNone) = 4 ∧
      (mixedEntries.filter (·.isPlaceholder)).map (·.name) = ["Unknown", "Unknown2"] := by
  have h : simplify false mixedSource mixedParameters = .ok mixedEntries := by decide +kernel
  obtain ⟨hblocks, -, -, -, -, hparent, hplaceholders, -⟩ :=
    simplify_in_blocks false mixedSource mixedParameters mixedEntries h
  exact ⟨h, hblocks, hparent, hplaceholders.trans (by decide +kernel)⟩

/-- Where the placeholders are numbered, a parent is the name of exactly one of them, that of the
object which the entry is a member of. Any other entry without a parent that has this name describes
a parameter that is not destructured. -/
theorem parent_names_own_placeholder (src : Source) (params : List Node) (ps : List Parameter)
    (h : simplify false src params = .ok ps) :
    ∃ blocks, ps = blocks.flatten ∧ Blocks false src 1 params blocks ∧
      ∀ (i : ℕ) (n : Node) (block : List Parameter), params[i]? = some n →
        blocks[i]? = some block → ∀ p ∈ block, ∀ parent, p.parent = some parent →
          n.kind = "object_pattern" ∧ ∃ head, block.head? = some head ∧ head.parent = none ∧
            ps.filter (fun q => q.name == parent && q.isPlaceholder) = [head] ∧
            ∀ (j : ℕ) (m : Node) (other : List Parameter), params[j]? = some m →
              blocks[j]? = some other → ∀ q ∈ other, q.parent = none → q.name = parent →
                j = i ∧ q = head ∨ m.kind ≠ "object_pattern" ∧ Entry src m q := by
  obtain ⟨blocks, rfl, hblocks⟩ := simplifyFrom_blocks h
  refine ⟨blocks, rfl, hblocks, fun i n block hn hblock p hp parent hparent => ?_⟩
  obtain ⟨kind, rfl, head, hhead, hname, hnone, hplaceholder⟩ :=
    (hblocks.block i n block hn hblock).head_of_parent hp hparent
  have hmem : head ∈ blocks.flatten := List.mem_flatten.mpr
    ⟨block, List.mem_of_getElem? hblock, List.mem_of_mem_head? hhead⟩
  refine ⟨kind, head, hhead, hnone, ?_, fun j m other hm hother q hq hqnone hqname => ?_⟩
  · rw [← hname]
    exact hblocks.filter_placeholder hmem hplaceholder
  · rcases (hblocks.block j m other hm hother).of_parent_none hq hqnone with
      ⟨mkind, hqhead, hqplaceholder⟩ | hplain
    · obtain rfl := eq_of_placeholder_eq hm hn (Node.isObject_iff.mpr mkind)
        (Node.isObject_iff.mpr kind) (hqplaceholder.symm.trans hqname)
      obtain rfl := Option.some.inj (hother.symm.trans hblock)
      exact Or.inl ⟨rfl, Option.some.inj (hqhead.symm.trans hhead)⟩
    · exact Or.inr hplain

/-- The source of `takenName`. -/
def takenNameSource : Source := .ofString "function f(Unknown, \x7b u \x7d) \x7b\x7d"

/-- A plain parameter with the name of a placeholder, and an object. -/
def takenName : List Node :=
  [.make "identifier" 11 18 none true false [],
    .make "object_pattern" 20 25 none true false
      [.make "shorthand_property_identifier_pattern" 22 23 none true false []]]

/-- The entries of `takenName`. -/
def takenNameEntries : List Parameter :=
  [{ name := "Unknown", name_ne := by decide },
    { name := "Unknown", type := some .object, name_ne := by decide },
    { name := "u", parent := some "Unknown", name_ne := by decide }]

theorem simplify_takenName : simplify false takenNameSource takenName = .ok takenNameEntries := by
  decide +kernel

/-- Although the first entry has the name too, only one placeholder has it. -/
theorem parent_of_takenName :
    simplify false takenNameSource takenName = .ok takenNameEntries ∧
      ∃ head, head.parent = none ∧
        takenNameEntries.filter (fun q => q.name == "Unknown" && q.isPlaceholder) = [head] := by
  obtain ⟨blocks, hflatten, hblocks, hown⟩ := parent_names_own_placeholder takenNameSource
    takenName takenNameEntries simplify_takenName
  have hmember : takenNameEntries[2] ∈ blocks.flatten := by
    rw [← hflatten]
    exact List.getElem_mem _
  obtain ⟨block, hblock, hp⟩ := List.mem_flatten.mp hmember
  obtain ⟨i, hi, rfl⟩ := List.getElem_of_mem hblock
  have hilength : i < takenName.length := by
    rw [← hblocks.length]
    exact hi
  obtain ⟨-, head, -, hnone, hfilter, -⟩ := hown i takenName[i] blocks[i]
    (List.getElem?_eq_getElem hilength) (List.getElem?_eq_getElem hi) _ hp "Unknown" rfl
  exact ⟨simplify_takenName, head, hnone, hfilter⟩

/-- A parent need not be the name of only one entry without a parent. -/
theorem parent_ambiguous_takenName :
    simplify false takenNameSource takenName = .ok takenNameEntries ∧
      ¬∀ p ∈ takenNameEntries, ∀ parent, p.parent = some parent →
        takenNameEntries.countP (fun q => q.parent.isNone && q.name == parent) = 1 := by
  refine ⟨simplify_takenName, fun h => ?_⟩
  have hcount := h _ (by decide : takenNameEntries[2] ∈ takenNameEntries) "Unknown" rfl
  revert hcount
  decide

end DocSignature
