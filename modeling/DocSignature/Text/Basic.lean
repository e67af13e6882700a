/-!
# Text

A `Text` is a list of code points. It differs from `String` in one respect: a code point may be a
surrogate, as the value of a string literal such as `"\uD800"` is. Text read from a source never
holds one, so `Text.ofString` goes one way for free and `Text.toString?` goes back where it can.
-/

namespace DocSignature

/-- A Unicode code point, surrogates included. -/
abbrev CodePoint := Fin 0x110000

/-- A list of code points. -/
abbrev Text := List CodePoint

namespace CodePoint

/-- The first half of a surrogate pair. -/
def isHighSurrogate (p : CodePoint) : Bool := 0xD800 ≤ p.val && p.val ≤ 0xDBFF

/-- The second half of a surrogate pair. -/
def isLowSurrogate (p : CodePoint) : Bool := 0xDC00 ≤ p.val && p.val ≤ 0xDFFF

/-- Either half of a surrogate pair. -/
def isSurrogate (p : CodePoint) : Bool := 0xD800 ≤ p.val && p.val ≤ 0xDFFF

theorem toNat_lt (c : Char) : c.toNat < 0x110000 := by
  have v := c.valid
  have e : c.val.toNat = c.toNat := rfl
  simp only [UInt32.isValidChar, Nat.isValidChar, e] at v
  omega

/-- The code point of a character. -/
def ofChar (c : Char) : CodePoint := ⟨c.toNat, toNat_lt c⟩

/-- The character at a code point, unless it is a surrogate. -/
def toChar? (p : CodePoint) : Option Char :=
  if p.isSurrogate then none else some (Char.ofNat p.val)

/-- The code point with this number, if there is one. -/
def ofNat? (n : Nat) : Option CodePoint :=
  if h : n < 0x110000 then some ⟨n, h⟩ else none

end CodePoint

namespace Text

/-- The code points of a list of characters. -/
def ofChars (s : List Char) : Text := s.map CodePoint.ofChar

/-- The code points of a string. -/
def ofString (s : String) : Text := ofChars s.toList

instance : Coe String Text := ⟨ofString⟩

/-- The characters of a text without surrogates. -/
def toChars? (t : Text) : Option (List Char) := t.mapM CodePoint.toChar?

/-- The string with these code points, if none of them is a surrogate. -/
def toString? (t : Text) : Option String := (toChars? t).map String.ofList

/-- Whether some code point is a surrogate. -/
def hasSurrogate (t : Text) : Bool := t.any CodePoint.isSurrogate

end Text

end DocSignature
