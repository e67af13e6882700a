import DocSignature.Failure

/-!
# Number literals

`Number.ofLiteral` gives the value of a number literal. Marked literals (`0x`, `0o`, `0b`) and
literals of digits behind a zero are exact; all others are rounded to binary floating point, and a
rounded value that is whole is given as a whole number. A literal that ends in `n` and one past the
largest finite value have no description.
-/

namespace DocSignature.Number

/-- The number a floating point value is, or the kind of value that has no description. -/
def ofBinary64 : Binary64 → Except Failure Number
  | .finite negative size =>
    match size.whole? with
    | some n => .ok (.whole (Numeral.withSign negative n))
    | none => .ok (.float (.finite negative size))
  | _ => .error (.source (.unknownKind "number"))

/-- A whole number, or the failure of one that could not be read. -/
def ofWhole : Option Nat → Except Failure Number
  | some n => .ok (.whole n)
  | none => .error (.malformed .numeral)

/-- Whether a literal is made of digits only and has more than a leading zero. Such a literal is in
base eight unless it holds an eight or a nine. -/
def isZeroLed (s : List Char) : Bool :=
  decide (1 < s.length) && s.head? == some '0' && s.all fun c => (Text.digit? c).isSome

/-- The value of a literal in base ten. -/
def ofDecimal (s : List Char) : Except Failure Number :=
  match Decimal.read? s with
  | some reading => ofBinary64 reading.toBinary64
  | none => .error (.malformed .numeral)

/-- The value of a literal without separators and without the mark `n`. It may have any number of
digits (`Numeral.whole?`). -/
def ofPlain (s : List Char) : Except Failure Number :=
  match s with
  | '0' :: mark :: digits =>
    match Numeral.markedBase? mark with
    | some base =>
      -- Blanks may follow the digits, but none may stand between the mark and the digits.
      ofWhole (Numeral.whole? base ((Text.trim ('0' :: digits.map Numeral.plain)).drop 1))
    | none =>
      if isZeroLed s then
        let octal := s.all fun c => (Numeral.digitIn? 8 c).isSome
        ofWhole (Numeral.whole? (if octal then 8 else 10) (s.map Numeral.plain))
      else ofDecimal s
  | _ => ofDecimal s

/-- The value of a number literal. Separators count for nothing, wherever they stand. -/
def ofLiteral (literal : List Char) : Except Failure Number :=
  let s := literal.filter (· != '_')
  if s.getLast? == some 'n' then .error (.source (.unknownKind "bigint")) else ofPlain s

end DocSignature.Number
