import DocSignature.JavaScript.Input
import DocSignature.JavaScript.Letter

/-!
# Gaps and comments

What may stand between two tokens: gaps, comments to the end of a line, and comments in a pair of
marks. `Input.next` is the input from the next token on. A comment that is never closed is no comment.

`afterComments` gives what is left behind each of the comments up to the next token; the rule for
automatic semicolons looks at each of these points.
-/

namespace DocSignature.JavaScript

/-- Where in a stretch between two tokens a character stands. -/
inductive Within where
  /-- Between comments. -/
  | gap
  /-- In a comment that runs to the end of its line. -/
  | line
  /-- In a comment that runs to its closing mark. `start` is the input from its opening mark on, and
  `star` tells whether the last character may begin the closing mark. -/
  | block (start : Input) (star : Bool)

/-- Skips gaps and comments. -/
def skipFrom : Within → Nat → List Char → Input
  | .gap, o, [] => ⟨o, []⟩
  | .gap, o, '/' :: '/' :: s => skipFrom .line (o + 2) s
  | .gap, o, '/' :: '*' :: s => skipFrom (.block ⟨o, '/' :: '*' :: s⟩ false) (o + 2) s
  | .gap, o, c :: s => if isGap c then skipFrom .gap (o + c.utf8Size) s else ⟨o, c :: s⟩
  | .line, o, [] => ⟨o, []⟩
  | .line, o, c :: s => skipFrom (if isLineEnd c then .gap else .line) (o + c.utf8Size) s
  | .block start _, _, [] => start
  | .block start star, o, c :: s =>
    skipFrom (if star && c == '/' then .gap else .block start (c == '*')) (o + c.utf8Size) s

/-- The input from the next token on. -/
def Input.next (i : Input) : Input := skipFrom .gap i.offset i.rest

/-- What is left behind each of the comments up to the next token. -/
def afterCommentsFrom : Within → List Char → List (List Char)
  | .gap, [] => []
  | .gap, '/' :: '/' :: s => afterCommentsFrom .line s
  | .gap, '/' :: '*' :: s => afterCommentsFrom (.block ⟨0, []⟩ false) s
  | .gap, c :: s => if isGap c then afterCommentsFrom .gap s else []
  | .line, [] => [[]]
  | .line, c :: s =>
    if isLineEnd c then (c :: s) :: afterCommentsFrom .gap s else afterCommentsFrom .line s
  | .block .., [] => []
  | .block start star, c :: s =>
    if star && c == '/' then s :: afterCommentsFrom .gap s
    else afterCommentsFrom (.block start (c == '*')) s

/-- What is left behind each of the comments up to the next token. -/
def Input.afterComments (i : Input) : List (List Char) := afterCommentsFrom .gap i.rest

/-! ## Comments with the marks of a page -/

/-- The marks that open a comment where a statement or an operand may start. -/
def pageMarks : List (List Char) := ["<!--".toList, "-->".toList]

/-- Whether a text starts with such a mark. -/
def isPageComment (s : List Char) : Bool := pageMarks.any (·.isPrefixOf s)

/-- Skips comments that such a mark opens and a line break ends. -/
def skipPageComments : Reader Unit :=
  Reader.iterate (fun _ => do
    let i := (← get).next
    if isPageComment i.rest then
      set (i.drop (i.rest.takeWhile (!isBreak ·)).length)
      return some ()
    else return none) ()

end DocSignature.JavaScript
