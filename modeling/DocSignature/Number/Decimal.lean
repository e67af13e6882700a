import DocSignature.Number.Binary64
import DocSignature.Number.Numeral

/-!
# Decimal numbers

`Decimal` is `digits * 10 ^ exponent`. Decimals are read from text (`Decimal.read?`), rounded to
binary (`Decimal.round`), and chosen for a binary value (`Magnitude.shortest`): the fewest digits that
round back to it, the nearest of those, and the even one of two equally near.
-/

namespace DocSignature

/-- The number `digits * 10 ^ exponent`. -/
structure Decimal where
  /-- The digits as one whole number. -/
  digits : Nat
  /-- The power of ten they are scaled by. -/
  exponent : Int
  deriving DecidableEq, Repr

namespace Decimal

/-- The numerator and denominator of a decimal. -/
def ratio (d : Decimal) : Nat × Nat :=
  (d.digits * Nat.pow 10 d.exponent.toNat, Nat.pow 10 (-d.exponent).toNat)

/-- The least `k` with `digits < 10 ^ k`. -/
def width (n : Nat) : Nat := if n = 0 then 0 else (Numeral.decimal n).length

/-- The binary magnitude nearest to a decimal, ties to even; `none` past the largest finite one.
Decimals from `10 ^ 310` on are past it and those below `10 ^ -330` are next to nothing, so neither
needs its power of ten worked out. -/
def round (d : Decimal) : Option Magnitude :=
  let top := d.exponent + width d.digits
  if d.digits = 0 || top < -330 then some .zero
  else if 310 < top then none
  else
    let (num, den) := d.ratio
    Magnitude.roundRatio num den

/-! ## Reading -/

/-- What a decimal numeral may denote. -/
inductive Reading where
  /-- A finite number with its sign. -/
  | finite (negative : Bool) (d : Decimal)
  /-- An infinity with its sign. -/
  | infinity (negative : Bool)
  /-- Not a number. -/
  | nan
  deriving DecidableEq, Repr

/-- Whether a character is a digit from `0` to `9`. -/
def isDigit (c : Char) : Bool := '0' ≤ c && c ≤ '9'

/-- The value of a list of digits. -/
def digitsValue (s : List Char) : Nat := s.foldl (fun n c => 10 * n + (c.toNat - '0'.toNat)) 0

/-- The exponent behind the digits: nothing, or `e`, an optional sign and digits. -/
def exponentPart? : List Char → Option Int
  | [] => some 0
  | e :: s =>
    let (negative, s) := Numeral.splitSign s
    if (e == 'e' || e == 'E') && !s.isEmpty && s.all isDigit then
      some (Numeral.withSign negative (digitsValue s))
    else none

/-- Splits off a fraction: a point and the digits behind it. -/
def splitFraction : List Char → List Char × List Char
  | '.' :: s => (s.takeWhile isDigit, s.dropWhile isDigit)
  | s => ([], s)

/-- Reads digits with an optional point and an optional exponent. There is at least one digit. -/
def unsigned? (s : List Char) : Option Decimal :=
  let whole := s.takeWhile isDigit
  let (fraction, rest) := splitFraction (s.dropWhile isDigit)
  if whole.isEmpty && fraction.isEmpty then none
  else (exponentPart? rest).map fun e => ⟨digitsValue (whole ++ fraction), e - fraction.length⟩

/-- Reads a numeral between blanks: an optional sign, then digits or one of the words `inf`,
`infinity` and `nan` in any case. -/
def read? (s : List Char) : Option Reading :=
  let (negative, s) := Numeral.splitSign (Text.trim (s.map Numeral.plain))
  let word := String.ofList (s.map Char.toLower)
  if word == "inf" || word == "infinity" then some (.infinity negative)
  else if word == "nan" then some .nan
  else (unsigned? s).map (.finite negative)

/-- The binary value nearest to what was read. -/
def Reading.toBinary64 : Reading → Binary64
  | .finite negative d =>
    match d.round with
    | some size => .finite negative size
    | none => .infinity negative
  | .infinity negative => .infinity negative
  | .nan => .nan

end Decimal

/-! ## Choosing digits -/

/-- Compares `a * 10 ^ i` with `n * 2 ^ j`. -/
def compareScaled (a : Nat) (i : Int) (n : Nat) (j : Int) : Ordering :=
  compare (a * Nat.pow 10 i.toNat * Nat.pow 2 (-j).toNat)
    (n * Nat.pow 2 j.toNat * Nat.pow 10 (-i).toNat)

namespace Magnitude

/-- Whether a decimal lies among the numbers that round to a magnitude. Half of the gap to either
neighbour belongs to it, the ends only if its significand is even. Below a power of two the gap is
half as wide. -/
def admits (x : Magnitude) (d : Decimal) : Bool :=
  let narrow := x.significand == leadingBit && decide (leastExponent < x.exponent)
  let lo := if narrow then 4 * x.significand - 1 else 4 * x.significand - 2
  let hi := 4 * x.significand + 2
  let closed := x.significand % 2 == 0
  let below := compareScaled d.digits d.exponent lo (x.exponent - 2)
  let above := compareScaled d.digits d.exponent hi (x.exponent - 2)
  (below == .gt || (closed && below == .eq)) && (above == .lt || (closed && above == .eq))

/-- The least `k` with `x < 10 ^ k`, for a positive magnitude. -/
def scale (x : Magnitude) : Int :=
  let guess : Int := ((x.significand.log2 : Int) + x.exponent) * 30103 / 100000
  let above (k : Int) : Bool := compareScaled 1 k x.significand x.exponent == .gt
  if above (guess - 1) then guess - 1
  else if above guess then guess
  else if above (guess + 1) then guess + 1
  else guess + 2

/-- The best decimal on the grid of step `10 ^ exponent`, if one of the two neighbours of the
magnitude on that grid rounds back to it. -/
def onGrid? (x : Magnitude) (exponent : Int) : Option Decimal :=
  let num := x.significand * Nat.pow 2 x.exponent.toNat * Nat.pow 10 (-exponent).toNat
  let den := Nat.pow 2 (-x.exponent).toNat * Nat.pow 10 exponent.toNat
  let low : Decimal := ⟨num / den, exponent⟩
  let high : Decimal := ⟨num / den + 1, exponent⟩
  match x.admits low, x.admits high with
  | false, false => none
  | true, false => some low
  | false, true => some high
  | true, true => some ⟨roundDiv num den, exponent⟩

/-- The exact decimal value of a magnitude. -/
def exact (x : Magnitude) : Decimal :=
  if 0 ≤ x.exponent then ⟨x.significand * Nat.pow 2 x.exponent.toNat, 0⟩
  else ⟨x.significand * Nat.pow 5 (-x.exponent).toNat, x.exponent⟩

/-- The decimal of fewest digits that rounds back to a magnitude, and the nearest of those. -/
def shortest (x : Magnitude) : Decimal :=
  if x.significand = 0 then ⟨0, 0⟩
  else
    let k := x.scale
    match (List.range 17).findSome? fun n => x.onGrid? (k - (n + 1 : Nat)) with
    | some d => d
    | none => x.exact

end Magnitude

/-! ## Layout -/

/-- How decimals are written: which exponents of the leading digit are written positionally, and
how many digits an exponent has at least. -/
structure DecimalLayout where
  /-- The least exponent of the leading digit that is written positionally. -/
  plainFrom : Int
  /-- The first exponent of the leading digit that is no longer written positionally. -/
  plainBelow : Int
  /-- The least number of digits in an exponent. -/
  exponentWidth : Nat

namespace DecimalLayout

/-- Drops zeros at the end of a list of digits, but keeps the first digit. -/
def dropZeros (s : List Char) : List Char :=
  match (s.reverse.dropWhile (· == '0')).reverse with
  | [] => ['0']
  | kept => kept

/-- Pads on the left with zeros. -/
def padZeros (width : Nat) (s : List Char) : List Char :=
  List.replicate (width - s.length) '0' ++ s

/-- Writes digits whose first one stands for `10 ^ lead`, with a point inside, behind or before
them. A whole number keeps a zero behind its point. -/
def positional (digits : List Char) (lead : Int) : List Char :=
  if lead < 0 then "0.".toList ++ List.replicate (-lead - 1).toNat '0' ++ digits
  else
    let cut := lead.toNat + 1
    let whole := digits.take cut ++ List.replicate (cut - digits.length) '0'
    let fraction := digits.drop cut
    whole ++ '.' :: (if fraction.isEmpty then ['0'] else fraction)

/-- Writes digits with an exponent that always has a sign. -/
def scientific (width : Nat) (digits : List Char) (lead : Int) : List Char :=
  let fraction := digits.drop 1
  let body := digits.take 1 ++ (if fraction.isEmpty then [] else '.' :: fraction)
  let sign := if lead < 0 then '-' else '+'
  body ++ 'e' :: sign :: padZeros width (Numeral.decimal lead.natAbs)

/-- Writes a decimal. -/
def render (layout : DecimalLayout) (d : Decimal) : List Char :=
  let all := Numeral.decimal d.digits
  let lead : Int := if d.digits = 0 then 0 else d.exponent + all.length - 1
  let digits := dropZeros all
  if layout.plainFrom ≤ lead && lead < layout.plainBelow then positional digits lead
  else scientific layout.exponentWidth digits lead

end DecimalLayout

namespace Binary64

/-- Numbers are written positionally from `0.0001` up to sixteen digits before the point, and
otherwise with an exponent of two digits at least. -/
def layout : DecimalLayout := ⟨-4, 16, 2⟩

/-- The text of a value: the fewest digits that identify it. -/
def render : Binary64 → String
  | .finite negative size =>
    String.ofList ((if negative then ['-'] else []) ++ layout.render size.shortest)
  | .infinity negative => if negative then "-inf" else "inf"
  | .nan => "nan"

end Binary64

end DocSignature
