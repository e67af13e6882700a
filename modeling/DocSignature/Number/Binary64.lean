/-!
# Binary floating point with 64 bits

A finite value is `significand * 2 ^ exponent` with a sign. `roundRatio` gives the value nearest to a
ratio of naturals, ties to the even significand, and `none` where the nearest value would be past
the largest finite one. All arithmetic is exact.
-/

namespace DocSignature

/-- The size of a finite value: `significand * 2 ^ exponent`, with at most 53 bits in the
significand and an exponent from -1074 to 971. -/
structure Magnitude where
  /-- The significant bits as a whole number. -/
  significand : Nat
  /-- The power of two they are scaled by. -/
  exponent : Int
  deriving DecidableEq, Repr

/-- A binary floating point value. -/
inductive Binary64 where
  /-- A finite value with its sign. -/
  | finite (negative : Bool) (size : Magnitude)
  /-- An infinity with its sign. -/
  | infinity (negative : Bool)
  /-- Not a number. -/
  | nan
  deriving DecidableEq, Repr

/-- The quotient rounded to the nearest whole number, a half to the even one. -/
def roundDiv (num den : Nat) : Nat :=
  let q := num / den
  let r := num % den
  if 2 * r < den then q
  else if den < 2 * r then q + 1
  else if q % 2 = 0 then q else q + 1

/-- The numerator and denominator of `num / den / 2 ^ e`. -/
def scaleDown (num den : Nat) (e : Int) : Nat × Nat :=
  (num * Nat.pow 2 (-e).toNat, den * Nat.pow 2 e.toNat)

/-- The largest `k` with `2 ^ k ≤ num / den`, for positive `num` and `den`. -/
def log2Ratio (num den : Nat) : Int :=
  let k : Int := (num.log2 : Int) - (den.log2 : Int)
  let (n, d) := scaleDown num den k
  if d ≤ n then k else k - 1

namespace Magnitude

/-- The least exponent, that of the values next to zero. -/
def leastExponent : Int := -1074

/-- The exponent of the largest finite values. -/
def greatestExponent : Int := 971

/-- The leading one of 53 bits: `2 ^ 52`. -/
def leadingBit : Nat := 0x10000000000000

/-- Nothing. -/
def zero : Magnitude := ⟨0, leastExponent⟩

/-- The magnitude nearest to `num / den`, ties to even; `none` past the largest finite one. -/
def roundRatio (num den : Nat) : Option Magnitude :=
  if num = 0 then some zero
  else
    let e := max (log2Ratio num den - 52) leastExponent
    let (n, d) := scaleDown num den e
    let m := roundDiv n d
    let rounded : Magnitude := if m = 2 * leadingBit then ⟨leadingBit, e + 1⟩ else ⟨m, e⟩
    if rounded.exponent ≤ greatestExponent then some rounded else none

/-- The whole number that a magnitude is, if it is one. -/
def whole? (x : Magnitude) : Option Nat :=
  if 0 ≤ x.exponent then some (x.significand * Nat.pow 2 x.exponent.toNat)
  else
    let unit := Nat.pow 2 (-x.exponent).toNat
    if x.significand % unit = 0 then some (x.significand / unit) else none

end Magnitude

end DocSignature
