import DocSignature.Location
import DocSignature.Text.Utf8

/-!
# Sources

A `Source` is the octets of a source file. Syntax trees speak of it in octet offsets; `Source.text`
gives the characters between two offsets and `Source.location` the line and column of one. Offsets
may cut a character or lie behind the end.

Only a line feed ends a line.
-/

namespace DocSignature

/-- The octets of a source file. -/
structure Source where
  /-- The octets in order. -/
  octets : List UInt8
  deriving DecidableEq

namespace Source

/-- The source with these characters. -/
def ofChars (s : List Char) : Source := ⟨Utf8.encode s⟩

/-- The source with the characters of a string. -/
def ofString (s : String) : Source := ofChars s.toList

/-- The number of octets. -/
def size (src : Source) : Nat := src.octets.length

/-- The octet that ends a line. -/
def lineFeed : UInt8 := 0x0A

/-- The characters between two offsets. -/
def text (src : Source) (start stop : Nat) : String :=
  String.ofList (Utf8.decode ((src.octets.take stop).drop start))

/-- The number of lines that end before an offset. -/
def row (src : Source) (offset : Nat) : Nat := (src.octets.take offset).count lineFeed

/-- The octets before an offset on its line. -/
def linePart (src : Source) (offset : Nat) : List UInt8 :=
  ((src.octets.take offset).reverse.takeWhile (· != lineFeed)).reverse

/-- The line and column of an offset. -/
def location (src : Source) (offset : Nat) : Location where
  line := src.row offset + 1
  column := (Utf8.decode (src.linePart offset)).length

end Source

end DocSignature
