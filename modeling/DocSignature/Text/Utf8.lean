import DocSignature.Text.Basic

/-!
# UTF-8

`encode` writes characters as octets. `decode` reads any octets back: each maximal piece that begins
a character and cannot be finished becomes one `U+FFFD`, and so does each octet that begins nothing.

The reader is a machine with two kinds of state (`Reading`): between characters, or inside one with
the number of octets still to come and the range the next one must lie in. The range is what rules
out overlong forms, surrogates and values past `U+10FFFF` at the second octet already, so an
ill-formed piece is never longer than its well-formed beginning.
-/

namespace DocSignature.Utf8

/-- The octets of a list of characters. -/
def encode (s : List Char) : List UInt8 := s.flatMap String.utf8EncodeChar

/-- The mark that stands for octets that are no character. -/
def replacement : Char := '\uFFFD'

/-- Where the reader stands. -/
inductive Reading where
  /-- Between characters. -/
  | between
  /-- Inside a character: `more + 1` octets are still to come, the next one from `lo` to `hi`, and
  the octets so far give `value`. -/
  | inside (more : Nat) (lo hi : UInt8) (value : Nat)
  deriving DecidableEq, Repr

/-- Reads an octet between characters: the characters it completes and the state it leaves. -/
def first (b : UInt8) : List Char × Reading :=
  if b < 0x80 then ([Char.ofNat b.toNat], .between)
  else if b < 0xC2 then ([replacement], .between)
  else if b < 0xE0 then ([], .inside 0 0x80 0xBF (b.toNat - 0xC0))
  else if b == 0xE0 then ([], .inside 1 0xA0 0xBF 0)
  else if b == 0xED then ([], .inside 1 0x80 0x9F 0xD)
  else if b < 0xF0 then ([], .inside 1 0x80 0xBF (b.toNat - 0xE0))
  else if b == 0xF0 then ([], .inside 2 0x90 0xBF 0)
  else if b < 0xF4 then ([], .inside 2 0x80 0xBF (b.toNat - 0xF0))
  else if b == 0xF4 then ([], .inside 2 0x80 0x8F 4)
  else ([replacement], .between)

/-- Reads one octet. An octet that does not continue the character begun ends it as ill-formed and
is read again between characters. -/
def step : Reading → UInt8 → List Char × Reading
  | .between, b => first b
  | .inside more lo hi value, b =>
    if lo ≤ b && b ≤ hi then
      let value := 64 * value + (b.toNat - 0x80)
      match more with
      | 0 => ([Char.ofNat value], .between)
      | more + 1 => ([], .inside more 0x80 0xBF value)
    else
      let (out, next) := first b
      (replacement :: out, next)

/-- Reads octets from a state on. A character that the end cuts off is ill-formed. -/
def decodeFrom : Reading → List UInt8 → List Char
  | .between, [] => []
  | .inside .., [] => [replacement]
  | state, b :: bs => (step state b).1 ++ decodeFrom (step state b).2 bs

/-- The characters of a list of octets, with `U+FFFD` for each ill-formed piece. -/
def decode (bs : List UInt8) : List Char := decodeFrom .between bs

end DocSignature.Utf8
