import DocSignature.Json.Writer
import DocSignature.Text.Shown

/-!
# Quoted text

`Text.quoted` shows a text between quotes on one line: single quotes, or double quotes if the text
holds a single quote and no double one. The quote, backslashes and characters without a shape of
their own are written as escapes.
-/

namespace DocSignature.Text

/-- The quote that a text is shown in. -/
def quoteFor (t : Text) : Char :=
  if t.contains (CodePoint.ofChar '\'') && !t.contains (CodePoint.ofChar '"') then '"' else '\''

/-- A code point inside quotes. -/
def quotedPoint (quote : Char) (p : CodePoint) : List Char :=
  if p = CodePoint.ofChar quote || p = CodePoint.ofChar '\\' then ['\\', Char.ofNat p.val]
  else if p.val = 0x0A then ['\\', 'n']
  else if p.val = 0x0D then ['\\', 'r']
  else if p.val = 0x09 then ['\\', 't']
  else if isShown p then [Char.ofNat p.val]
  else if p.val < 0x100 then '\\' :: 'x' :: Json.hexDigits 2 p.val
  else if p.val < 0x10000 then '\\' :: 'u' :: Json.hexDigits 4 p.val
  else '\\' :: 'U' :: Json.hexDigits 8 p.val

/-- A text between quotes. -/
def quoted (t : Text) : String :=
  let quote := quoteFor t
  String.ofList (quote :: t.flatMap (quotedPoint quote) ++ [quote])

end DocSignature.Text
