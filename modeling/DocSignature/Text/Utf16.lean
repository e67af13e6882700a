import DocSignature.Text.Basic

/-!
# UTF-16 units

`units` gives the 16-bit units of a text, and `joinPairs` replaces each high surrogate that stands
directly before a low one by the code point the two spell. Joining goes from left to right and keeps
the units.
-/

namespace DocSignature

namespace CodePoint

/-- The 16-bit units of a code point. A surrogate is its own unit. -/
def units (p : CodePoint) : List Nat :=
  if p.val < 0x10000 then [p.val]
  else [0xD800 + (p.val - 0x10000) / 0x400, 0xDC00 + (p.val - 0x10000) % 0x400]

/-- The code point that a surrogate pair spells. -/
def ofPair (high low : CodePoint) : CodePoint :=
  Fin.ofNat 0x110000 (0x10000 + (high.val - 0xD800) * 0x400 + (low.val - 0xDC00))

end CodePoint

namespace Text

/-- The 16-bit units of a text. -/
def units (t : Text) : List Nat := t.flatMap CodePoint.units

/-- Joins each surrogate pair into the code point it spells, from left to right. -/
def joinPairs : Text → Text
  | high :: low :: rest =>
    if high.isHighSurrogate && low.isLowSurrogate then CodePoint.ofPair high low :: joinPairs rest
    else high :: joinPairs (low :: rest)
  | t => t

end Text

end DocSignature
