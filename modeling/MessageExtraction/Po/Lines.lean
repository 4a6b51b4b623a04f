import MessageExtraction.Text.Basic

/-!
# Lines of a text

A line ends after a line feed, a carriage return, the two together, a vertical
tab, a form feed, one of three information separators, the next-line control,
or the line or paragraph separator.

## Main definitions

* `Text.linesWithEnds` -- the lines of a text, each with what ends it.

## Main results

* `Text.flatten_linesWithEnds` -- the lines together are the text.
-/

namespace MessageExtraction

/-- Whether a line ends after a code point. -/
def CodePoint.endsLine (c : CodePoint) : Bool :=
  c.isAny ['\n', '\r', '\x0b', '\x0c', '\x1c', '\x1d', '\x1e', '\u0085', '\u2028', '\u2029']

namespace Text

/-- Puts a code point in front of the first line. -/
def consLine (c : CodePoint) : List Text → List Text
  | [] => [[c]]
  | line :: lines => (c :: line) :: lines

/-- The lines of a text, each with what ends it. -/
def linesWithEnds : Text → List Text
  | [] => []
  | [c] => [[c]]
  | c :: d :: t =>
    if c.endsLine && !(c.is '\r' && d.is '\n') then [c] :: linesWithEnds (d :: t)
    else consLine c (linesWithEnds (d :: t))

theorem flatten_consLine (c : CodePoint) (lines : List Text) :
    (consLine c lines).flatten = c :: lines.flatten := by
  cases lines <;> rfl

/-- The lines together are the text. -/
theorem flatten_linesWithEnds (t : Text) : (linesWithEnds t).flatten = t := by
  fun_induction linesWithEnds t with
  | case1 => rfl
  | case2 => rfl
  | case3 c d t _ ih => simp [ih]
  | case4 c d t _ ih => simp [flatten_consLine, ih]

end Text

end MessageExtraction
