import DocSignature.Failure
import DocSignature.Tree.Node

/-!
# String literals

A string literal is a node whose named children are stretches of plain characters and escapes. Its
value (`stringValue`) is the text of the one and the meaning of the other, laid end to end. Escapes
spell 16-bit units, so two of them may make one character.
-/

namespace DocSignature

namespace Escape

/-- Why an escape means nothing. -/
inductive Error where
  /-- The code in braces is past the last code point. -/
  | beyond
  /-- The escape is none that the grammar knows. -/
  | malformed (m : Malformed)
  deriving DecidableEq, Repr

/-- The code point with this number. -/
def ofCode (n : Int) : Except Error Text :=
  match CodePoint.ofNat? n.toNat with
  | some p => if n < 0 then .error (.malformed (outside n)) else .ok [p]
  | none => .error (.malformed (outside n))
where
  /-- What is wrong with a number that is no code point. -/
  outside (n : Int) : Malformed :=
    if -0x80000000 ≤ n && n < 0x80000000 then .codePoint else .hugeCode

/-- The code point that hexadecimal digits spell. -/
def ofHex (digits : List Char) : Except Error Text :=
  match Numeral.hexadecimal? digits with
  | some n => ofCode n
  | none => .error (.malformed .numeral)

/-- The code point that hexadecimal digits in braces spell. -/
def ofBraces (digits : List Char) : Except Error Text :=
  match Numeral.hexadecimal? digits with
  | some n => if 0x10FFFF < n then .error .beyond else ofCode n
  | none => .error (.malformed .numeral)

/-- The control character that a letter stands for. -/
def control? : List Char → Option Char
  | ['n'] => some '\n'
  | ['t'] => some '\t'
  | ['r'] => some '\r'
  | ['b'] => some '\x08'
  | ['f'] => some '\x0c'
  | ['v'] => some '\x0b'
  | ['0'] => some '\x00'
  | _ => none

/-- The code point of digits in base eight, if there are only such digits. -/
def octal? (body : List Char) : Option Nat :=
  if body.all fun c => (Numeral.digitIn? 8 c).isSome then Numeral.whole? 8 body else none

/-- What is neither a letter with a meaning nor a code: a line that goes on means nothing, and any
other character stands for itself. -/
def ofOther (body : List Char) : Text :=
  if body.all fun c => c == '\r' || c == '\n' then [] else Text.ofChars body

/-- The meaning of an escape, given what follows its backslash. -/
def meaning (body : List Char) : Except Error Text :=
  match control? body with
  | some c => .ok [CodePoint.ofChar c]
  | none =>
    match body with
    | 'u' :: '{' :: digits => ofBraces digits.dropLast
    | 'u' :: digits => ofHex digits
    | 'x' :: digits => ofHex digits
    | _ =>
      match octal? body with
      | some n => ofCode n
      | none => .ok (ofOther body)

end Escape

/-- The text of one part of a string literal. -/
def partValue (src : Source) (part : Node) : Except Failure Text :=
  let s := (part.text src).toList
  if part.kind == "escape_sequence" then
    match Escape.meaning (s.drop 1) with
    | .ok t => .ok t
    | .error .beyond =>
      .error (.source (.unreadableAt (part.location src) "invalid unicode escape"))
    | .error (.malformed m) => .error (.malformed m)
  else .ok (Text.ofChars s)

/-- The texts of the parts of a string literal, end to end. -/
def partValues (src : Source) : List Node → Except Failure Text
  | [] => .ok []
  | part :: rest => do
    let t ← partValue src part
    let ts ← partValues src rest
    return t ++ ts

/-- The value of a string literal. -/
def stringValue (src : Source) (literal : Node) : Except Failure Text :=
  (partValues src literal.namedChildren).map Text.joinPairs

end DocSignature
