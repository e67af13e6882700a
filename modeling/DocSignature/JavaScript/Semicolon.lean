import DocSignature.JavaScript.Trivia

/-!
# Automatic semicolons

A statement may end without a semicolon at the end of the source, before a closing brace, or at a
line break, unless what follows the break goes on with an expression. `endsHere` is that rule on the
text behind a token. A token that is not yet a whole expression (`complete` is false) lets a comment
that holds or ends in a line break count as well, unless a comma or an equals sign follows at once.

Only the characters of `isSpace` are looked through. Where the text behind a token does not end the
statement, the text behind each of the following comments may (`semicolonAt`).
-/

namespace DocSignature.JavaScript

/-- The word `in` or `instanceof`, as far as the rule for semicolons tells: no letter follows. -/
def isRelation (s : List Char) : Bool :=
  ["in".toList, "instanceof".toList].any fun w =>
    w.isPrefixOf s && !((s.drop w.length).head?.any isLetter)

/-- Whether a text behind a line break goes on with the expression before the break. -/
def goesOn : List Char → Bool
  | '.' :: s => !s.head?.any isDigit
  | '+' :: s => s.head? != some '+'
  | '-' :: s => s.head? != some '-'
  | '!' :: s => s.head? == some '='
  | c :: s => "\x60,:;*%><=[(?^|&/".toList.contains c || isRelation (c :: s)
  | [] => false

/-- Where behind a line break a character stands. -/
inductive Behind where
  /-- Between comments. -/
  | gap
  /-- In a comment that runs to a line break. -/
  | line
  /-- In a comment that runs to its closing mark. -/
  | block (star : Bool)

/-- Whether a semicolon may be left out before a line break with this text behind it. -/
def endsBehind : Behind → List Char → Bool
  | _, [] => true
  | .gap, '/' :: '/' :: s => endsBehind .line s
  | .gap, '/' :: '*' :: s => endsBehind (.block false) s
  | .gap, c :: s => if isSpace c then endsBehind .gap s else !goesOn (c :: s)
  | .line, c :: s => endsBehind (if isBreak c then .gap else .line) s
  | .block star, c :: s => endsBehind (if star && c == '/' then .gap else .block (c == '*')) s

/-- Where before a line break a character stands. `broken` tells whether a comment in a pair of marks
has held a line break. -/
inductive Ahead where
  /-- Behind the token, or behind a comment in a pair of marks. -/
  | gap
  /-- Behind a comment that ran to the end of its line, or one that another follows at once. -/
  | afterLine (broken : Bool)
  /-- In a comment that runs to a line break. -/
  | line (broken : Bool)
  /-- In a comment that runs to its closing mark. -/
  | block (star broken : Bool)

/-- Whether a text starts with a sign that goes on with a declaration. -/
def joins (s : List Char) : Bool := s.head? == some ',' || s.head? == some '='

/-- Whether a semicolon may be left out before a text. -/
def endsHere (complete : Bool) : Ahead → List Char → Bool
  | _, [] => true
  | .gap, '/' :: '/' :: s => endsHere complete (.line false) s
  | .gap, '/' :: '*' :: s => endsHere complete (.block false false) s
  | .gap, c :: s =>
    if isBreak c then endsBehind .gap s
    else if isSpace c then endsHere complete .gap s
    else c == '}'
  | .afterLine broken, '/' :: '/' :: s => endsHere complete (.line broken) s
  | .afterLine broken, '/' :: '*' :: s => endsHere complete (.block false broken) s
  | .afterLine broken, c :: s =>
    if isSpace c then endsHere complete (.afterLine broken) s
    else c == '}' || (c != '/' && !complete && !joins (c :: s))
  | .line broken, c :: s =>
    endsHere complete (if isBreak c then .afterLine broken else .line broken) s
  | .block star broken, c :: s =>
    if star && c == '/' then
      if s.head? == some '/' then endsHere complete (.afterLine broken) s
      else broken && !complete && !joins s || endsHere complete .gap s
    else endsHere complete (.block (c == '*') (broken || isBreak c)) s

/-- Whether a semicolon may be left out here. -/
def semicolonAt (complete : Bool) (i : Input) : Bool :=
  (i.rest :: i.afterComments).any (endsHere complete .gap)

end DocSignature.JavaScript
