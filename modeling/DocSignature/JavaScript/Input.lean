import DocSignature.Tree.Node

/-!
# Reading a source

An `Input` is what is left of a source, with the octet offset where it starts. A `Reader` takes
something off the front of an input, or fails. Between two tokens an input stands right behind the
first of them, since what separates the tokens may end a statement.

Readers that repeat do so at most as often as a bound says that is given with the source (`iterate`).
-/

namespace DocSignature.JavaScript

/-- What is left of a source. -/
structure Input where
  /-- The offset of the first octet that is left. -/
  offset : Nat
  /-- The characters that are left. -/
  rest : List Char

/-- The input behind the first `n` characters. -/
def Input.drop : Nat → Input → Input
  | 0, i => i
  | _ + 1, ⟨o, []⟩ => ⟨o, []⟩
  | n + 1, ⟨o, c :: s⟩ => Input.drop n ⟨o + c.utf8Size, s⟩

/-- The characters of an input before an offset. -/
def Input.before (stop : Nat) : Input → List Char
  | ⟨o, s⟩ => go o s
where
  /-- The characters before `stop`, of those that start at an offset. -/
  go (o : Nat) : List Char → List Char
    | c :: s => if o < stop then c :: go (o + c.utf8Size) s else []
    | [] => []

/-- Takes something off the front of an input, or fails. It is given a bound on repetition. -/
abbrev Reader := ReaderT Nat (StateT Input Option)

namespace Reader

variable {α : Type}

/-- At most `n` steps from a value, each of them if there is one. -/
def iterateFor : Nat → (α → Reader (Option α)) → α → Reader α
  | 0, _, _ => failure
  | n + 1, step, a => do
    match ← step a with
    | some b => iterateFor n step b
    | none => return a

/-- As many steps from a value as there are, up to the bound. -/
def iterate (step : α → Reader (Option α)) (a : α) : Reader α := do
  iterateFor (← read) step a

/-- What a reader gives, as often as it gives something. -/
def many (item : Reader (Option α)) : Reader (List α) := do
  let items ← iterate (fun items => return (← item).map (· :: items)) []
  return items.reverse

/-- Takes `n` characters. -/
def skip (n : Nat) : Reader Unit := modify (·.drop n)

/-- A node from an offset to what has been read. -/
def node (kind : String) (start : Nat) (children : List Node) : Reader Node := do
  return Node.make kind start (← get).offset none true false children

end Reader

/-- The node as a field of its parent. -/
def fill (field : String) (n : Node) : Node := { n with field := some field }

end DocSignature.JavaScript
