import MessageExtraction.Po.Lines
import MessageExtraction.Po.Wrap

/-!
# Fields of a PO file

A field is a keyword and a quoted text. Backslashes, quotation marks and the
controls that have a letter are escaped by a backslash. A text of several lines,
or one too long for the line of its keyword, follows the keyword in pieces, each
piece quoted on a line of its own after an empty first one.

## Main definitions

* `Po.escape` -- a text with its escapes.
* `Po.field` -- the lines of a field.
-/

namespace MessageExtraction.Po

/-- The number of columns of a line. -/
def lineWidth : Nat := 78

/-- The letters that stand for code points after a backslash. -/
def escapes : List (Char × Char) :=
  [('\\', '\\'), ('\t', 't'), ('\r', 'r'), ('\n', 'n'), ('\x0b', 'v'), ('\x08', 'b'), ('\x0c', 'f'),
    ('\x22', '\x22')]

/-- The letter that stands for a code point after a backslash. -/
def escapeLetter? (c : CodePoint) : Option CodePoint :=
  (escapes.find? fun e => c.is e.1).map fun e => CodePoint.ofChar e.2

/-- A code point with its escape. -/
def escapePoint (c : CodePoint) : Text :=
  match escapeLetter? c with
  | some letter => [CodePoint.ofChar '\\', letter]
  | none => [c]

/-- A text with its escapes. -/
def escape (t : Text) : Text :=
  t.flatMap escapePoint

/-- A text between quotation marks. -/
def quote (t : Text) : Text :=
  Text.ofChar '\x22' ++ t ++ Text.ofChar '\x22'

/-- The pieces of a text, escaped: its lines, or if there is but one and it is too long for the
line of a keyword, the lines that its chunks fill. -/
def pieces (keyword t : Text) : List Text :=
  let lines := t.linesWithEnds
  if 1 < lines.length then [] :: lines.map escape
  else
    let escaped := t.countP fun c => (escapeLetter? c).isSome
    if lineWidth - (keyword.length + 3) + escaped < t.length then
      [] :: Wrap.lines false (lineWidth - 2) (escape t)
    else [escape t]

/-- The lines of a field. -/
def field (keyword t : Text) : List Text :=
  match (pieces keyword t).map quote with
  | [] => []
  | first :: others => (keyword ++ Text.ofChar ' ' ++ first) :: others

end MessageExtraction.Po
