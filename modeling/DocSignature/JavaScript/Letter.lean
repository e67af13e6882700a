import DocSignature.Text.Class

/-!
# Characters of source text

The classes of characters that a source is made of. `isGap` holds of what may separate two tokens,
`isSpace` of the smaller class that is looked through for an automatic semicolon, and `isNamePart` of
what a name may hold: every character that is neither a control character, nor a gap, nor
punctuation.
-/

namespace DocSignature.JavaScript

/-- The characters that may separate two tokens. -/
def gapRanges : List (Nat × Nat) :=
  [(0x09, 0x0D), (0x20, 0x20), (0xA0, 0xA0), (0x1680, 0x1680), (0x2000, 0x200B),
   (0x2028, 0x2029), (0x202F, 0x202F), (0x205F, 0x2060), (0x3000, 0x3000), (0xFEFF, 0xFEFF)]

/-- Whether a character may separate two tokens. -/
def isGap (c : Char) : Bool := Text.inRanges gapRanges c.toNat

/-- The separators that are looked through for an automatic semicolon. Those that forbid a line to
break, and those without width, are not among them. -/
def spaceRanges : List (Nat × Nat) :=
  [(0x09, 0x0D), (0x20, 0x20), (0x1680, 0x1680), (0x2000, 0x2006), (0x2008, 0x200A),
   (0x2028, 0x2029), (0x205F, 0x205F), (0x3000, 0x3000)]

/-- Whether a character is looked through for an automatic semicolon. -/
def isSpace (c : Char) : Bool := Text.inRanges spaceRanges c.toNat

/-- Whether a character breaks a line where a semicolon may be left out. -/
def isBreak (c : Char) : Bool := c == '\n' || c == '\u2028' || c == '\u2029'

/-- Whether a character ends a comment that runs to the end of its line. -/
def isLineEnd (c : Char) : Bool := c == '\r' || isBreak c

/-- The punctuation of the language, quotes and the backslash included. -/
def punctuation : List Char := ":;\x60\x22\x27@#.,|^&<=>+-*/\\%?!~()[]\x7b\x7d".toList

/-- Whether a character may stand in a name. -/
def isNamePart (c : Char) : Bool := ' ' < c && !isGap c && !punctuation.contains c

/-- Whether a character is a decimal digit. -/
def isDigit (c : Char) : Bool := '0' ≤ c && c ≤ '9'

/-- Whether a character is an octal digit. -/
def isOctal (c : Char) : Bool := '0' ≤ c && c ≤ '7'

/-- Whether a character is a hexadecimal digit. -/
def isHex (c : Char) : Bool := isDigit c || ('a' ≤ c && c ≤ 'f') || ('A' ≤ c && c ≤ 'F')

/-- Whether a character is a letter: of the basic alphabet, or any name character beyond it. -/
def isLetter (c : Char) : Bool :=
  ('a' ≤ c && c ≤ 'z') || ('A' ≤ c && c ≤ 'Z') || ('\x7f' < c && isNamePart c)

end DocSignature.JavaScript
