import DocSignature.Text.Class

/-!
# Whole numbers in a base

Numerals are read leniently: white space may stand around them, one sign may lead them, a single
`_` may stand between two digits, and the digits of any script count. `whole?` reads a run of digits,
`signed?` a numeral with its sign, and `hexadecimal?` one that may carry the mark `0x`.

A numeral may have any number of digits. The limit that a process can set on the digits of a number
that it reads or writes in base ten is left out.
-/

namespace DocSignature.Numeral

/-- The plain form of a character: a digit of any script becomes the digit of the same value from
`0` to `9`. -/
def plain (c : Char) : Char :=
  match Text.digit? c with
  | some d => Char.ofNat ('0'.toNat + d)
  | none => c

/-- The value of a digit in a base up to 16. The letters `a` to `f` count in either case. -/
def digitIn? (base : Nat) (c : Char) : Option Nat :=
  let value :=
    if '0' ≤ c && c ≤ '9' then c.toNat - '0'.toNat
    else if 'a' ≤ c && c ≤ 'f' then c.toNat - 'a'.toNat + 10
    else if 'A' ≤ c && c ≤ 'F' then c.toNat - 'A'.toNat + 10
    else base
  if value < base then some value else none

/-- Reads digits after the value `acc`. `ready` tells whether a digit came last, so that a `_` or
the end may follow. -/
def wholeFrom (base acc : Nat) (ready : Bool) : List Char → Option Nat
  | [] => if ready then some acc else none
  | c :: s =>
    if c == '_' then
      if ready then wholeFrom base acc false s else none
    else
      match digitIn? base c with
      | some d => wholeFrom base (base * acc + d) true s
      | none => none

/-- The value of a run of digits, at least one, with single `_` between them. There is no limit on
their number. -/
def whole? (base : Nat) (s : List Char) : Option Nat := wholeFrom base 0 false s

/-- Splits off a sign: whether it is a minus, and the rest. -/
def splitSign : List Char → Bool × List Char
  | '-' :: s => (true, s)
  | '+' :: s => (false, s)
  | s => (false, s)

/-- A whole number with a sign. -/
def withSign (negative : Bool) (n : Nat) : Int := if negative then -(n : Int) else n

/-- Reads a numeral between blanks, with an optional sign. -/
def signed? (base : Nat) (s : List Char) : Option Int :=
  let (negative, s) := splitSign (Text.trim (s.map plain))
  (whole? base s).map (withSign negative)

/-- Drops the mark `0x`, in either case, and one `_` behind it. -/
def dropHexMark : List Char → List Char
  | '0' :: x :: '_' :: s => if x == 'x' || x == 'X' then s else '0' :: x :: '_' :: s
  | '0' :: x :: s => if x == 'x' || x == 'X' then s else '0' :: x :: s
  | s => s

/-- Reads a hexadecimal numeral between blanks, with an optional sign and an optional mark `0x`. -/
def hexadecimal? (s : List Char) : Option Int :=
  let (negative, s) := splitSign (Text.trim (s.map plain))
  (whole? 16 (dropHexMark s)).map (withSign negative)

/-- The base that a mark such as `0x` announces. -/
def markedBase? (c : Char) : Option Nat :=
  if c == 'x' || c == 'X' then some 16
  else if c == 'o' || c == 'O' then some 8
  else if c == 'b' || c == 'B' then some 2
  else none

/-- The decimal digits of a number. -/
def decimal (n : Nat) : List Char := Nat.toDigits 10 n

end DocSignature.Numeral
