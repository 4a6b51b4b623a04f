import MessageExtraction.Text.Printable

/-!
# Quoted texts

Messages show a text between quotation marks. Apostrophes are used unless the
text holds an apostrophe and no double quote. The mark in use and the backslash
are escaped by a backslash, line feed, carriage return and tab have names, and
every other code point that is not printable is written by its number.

## Main definitions

* `Text.quoted` -- the quoted form of a text.
-/

namespace MessageExtraction

/-- The lower-case hexadecimal digits of a number, at least `width` of them. -/
def Text.hex (width n : Nat) : Text :=
  let digits := (Nat.toDigits 16 n).map CodePoint.ofChar
  List.replicate (width - digits.length) (CodePoint.ofChar '0') ++ digits

namespace CodePoint

/-- The form of one code point between two marks. -/
def quotedIn (mark c : CodePoint) : Text :=
  if c = mark || c.is '\\' then [ofChar '\\', c]
  else if c.is '\n' then [ofChar '\\', ofChar 'n']
  else if c.is '\r' then [ofChar '\\', ofChar 'r']
  else if c.is '\t' then [ofChar '\\', ofChar 't']
  else if c.isPrintable then [c]
  else if c.val < 0x100 then ofChar '\\' :: ofChar 'x' :: Text.hex 2 c.val
  else if c.val < 0x10000 then ofChar '\\' :: ofChar 'u' :: Text.hex 4 c.val
  else ofChar '\\' :: ofChar 'U' :: Text.hex 8 c.val

end CodePoint

namespace Text

/-- The mark that a quoted text stands between. -/
def mark (t : Text) : CodePoint :=
  if t.any (·.is '\x27') && !t.any (·.is '\x22') then '\x22' else '\x27'

/-- A text between quotation marks. -/
def quoted (t : Text) : Text :=
  mark t :: t.flatMap (CodePoint.quotedIn (mark t)) ++ [mark t]

end Text

end MessageExtraction
