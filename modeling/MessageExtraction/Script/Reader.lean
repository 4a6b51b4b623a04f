import MessageExtraction.Script.Token

/-!
# Reading the leaves of scripts

A reader goes over the tokens of a script and gathers parts of its tree, or
fails. The readers of this module take one token each, or the stretch of source
that a token turns out to begin where its meaning depends on its place: a regular
expression, the text of a template, a name in markup. Beside them stand the
classes of tokens that the grammar asks about.

## Main definitions

* `Script.Reader` -- a reader of parts of a tree.
* `Script.take`, `Script.punctuation`, `Script.keyword`, `Script.optional` -- the readers of one
  token.
* `Script.closing`, `Script.semicolon` -- what may be missing before a line end or the end of the
  source.
* `Script.Cursor.binaryLevel?` -- the level of a binary operator.
-/

namespace MessageExtraction.Script

/-- A reader of parts of a tree from the current token on; it may fail. -/
abbrev Reader (α : Type) := StateT Cursor Option α

/-- The current token as a leaf. -/
def take (kind : LeafKind) : Reader Part := do
  let c ← get
  set c.next
  return c.part kind

/-- A piece of punctuation that has to come next. -/
def punctuation (word : String) : Reader Part := do
  if (← get).isPunctuation word then take .punctuation else failure

/-- A word that has to come next. -/
def keyword (word : String) : Reader Part := do
  if (← get).isWord word then take .keyword else failure

/-- A piece of punctuation if it comes next. -/
def optional (word : String) : Reader (List Part) := do
  if (← get).isPunctuation word then return [← take .punctuation] else return []

/-- A closing bracket. At the end of the source and before a closing brace it may be missing. -/
def closing (word : String) : Reader (List Part) := do
  let c ← get
  if c.isPunctuation word then return [← take .punctuation]
  else if c.atEnd || c.isPunctuation "\x7d" then return []
  else failure

/-- The semicolon of a statement, which may be supplied where a line ends, before a closing brace
and at the end. -/
def semicolon : Reader (List Part) := do
  let c ← get
  if c.isPunctuation ";" then return [← take .punctuation]
  else if c.lineEnds || c.atEnd || c.isPunctuation "\x7d" then return []
  else failure

/-- Whether a statement ends before a token although more could follow on the same line. -/
def Cursor.endsStatement (c : Cursor) : Bool :=
  c.atEnd || c.isPunctuation ";" || c.isPunctuation "\x7d" ||
    (c.lineEnds && !(continuing.any c.isPunctuation) && !c.isOneOf ["in", "instanceof"])
where
  /-- The punctuation before which a line end does not end a statement. -/
  continuing : List String :=
    ["\x60", ",", ":", "*", "%", ">", "<", "=", "[", "(", "?", "^", "|", "&", "/", "+", "-", ".",
      "!=", "!==", "=>", "==", "===", "<=", ">=", "&&", "||", "??", "?.", "<<", ">>", ">>>", "**",
      "*=", "/=", "%=", "&=", "|=", "^=", "<<=", ">>=", ">>>=", "**=", "&&=", "||=", "??="]

/-- The words that begin no identifier in an expression. -/
def reservedWords : List String :=
  ["break", "case", "catch", "const", "continue", "debugger", "default", "do", "else", "export",
    "extends", "finally", "for", "if", "in", "instanceof", "return", "switch", "throw", "try",
    "var", "while", "with", "delete", "typeof", "void", "enum"]

/-- The words that are values of their own. -/
def valueWords : List String :=
  ["this", "super", "null", "true", "false", "undefined"]

/-- The operators that assign. -/
def assignmentOperators : List String :=
  ["=", "+=", "-=", "*=", "/=", "%=", "**=", "<<=", ">>=", ">>>=", "&=", "|=", "^=", "&&=", "||=",
    "??="]

/-- The binary operators written as punctuation, with their levels. -/
def binaryLevels : List (String × Nat) :=
  [("??", 1), ("||", 2), ("&&", 3), ("|", 4), ("^", 5), ("&", 6), ("==", 7), ("!=", 7), ("===", 7),
    ("!==", 7), ("<", 8), (">", 8), ("<=", 8), (">=", 8), ("<<", 9), (">>", 9), (">>>", 9),
    ("+", 10), ("-", 10), ("*", 11), ("/", 11), ("%", 11), ("**", 12)]

/-- The level of the binary operator that a token is. -/
def Cursor.binaryLevel? (c : Cursor) (allowIn : Bool) : Option Nat :=
  match c.kind with
  | .punctuation => (binaryLevels.find? fun l => l.1 = c.word).map (·.2)
  | .name => if c.word = "instanceof" || (allowIn && c.word = "in") then some 8 else none
  | _ => none

/-- Whether an operand can begin with a token. -/
def Cursor.startsOperand (c : Cursor) : Bool :=
  match c.kind with
  | .name => !(["in", "of", "instanceof", "as"].contains c.word)
  | .privateName | .number | .string => true
  | .punctuation =>
    ["(", "[", "\x7b", "\x60", "+", "-", "!", "~", "++", "--", "/", "/=", "<", "@"].contains c.word
  | .stray | .endOfSource => false

/-- Whether a comment in the manner of markup stands where an operand is expected. -/
def Cursor.atMarkupComment (c : Cursor) : Bool :=
  c.before.rest.startsWith "<!--" || c.before.rest.startsWith "-->"

/-- Passes over comments in the manner of markup, `<!--` and `-->` up to the end of a line; `n`
bounds the number of them. -/
def Cursor.skipMarkupComments : Nat → Cursor → Cursor
  | 0, c => c
  | n + 1, c =>
    if c.atMarkupComment then
      let length :=
        (c.before.rest.takeWhile fun d => !d.isAny ['\n', '\u2028', '\u2029']).length
      Cursor.skipMarkupComments n
        (Cursor.ofPlace (c.before.advance length)
          (c.before.leaf .markupComment length :: c.comments) c.lineEnds)
    else c

/-- Makes ready for an operand. -/
def operandStart : Reader Cursor := do
  let c ← get
  if c.atMarkupComment then
    let c := c.skipMarkupComments c.before.rest.length
    set c
    return c
  else return c

/-- The length of a regular expression at the start of a text, its flags left out. -/
def regexLength? (t : Text) : Option Nat :=
  match t with
  | c :: t => if c.is '/' then (go false t).map (· + 1) else none
  | [] => none
where
  /-- The length up to the closing slash, outside of a character class or inside one. -/
  go : Bool → Text → Option Nat
    | _, [] => none
    | _, [c] => if c.is '/' then some 1 else none
    | inClass, c :: d :: t =>
      if isLineEnd c then none
      else if c.is '\\' then (go inClass t).map (· + 2)
      else if c.is '/' && !inClass then some 1
      else if c.is '[' then (go true (d :: t)).map (· + 1)
      else if c.is ']' then (go false (d :: t)).map (· + 1)
      else (go inClass (d :: t)).map (· + 1)

/-- A leaf of the next code points from the beginning of the current token. -/
def takeLength (kind : LeafKind) (length : Nat) : Reader Part := do
  let c ← get
  set (Cursor.ofPlace (c.before.advance length))
  return ⟨c.comments.reverse, c.before.leaf kind length⟩

/-- A regular expression at the current token. -/
def regex : Reader Part := do
  let t := (← get).before.rest
  match regexLength? t with
  | some n => takeLength .regex (n + ((t.drop n).takeWhile CodePoint.isAsciiLetter).length)
  | none => failure

/-- The length of the text of a template up to its end or to a substitution. -/
def templateTextLength : Text → Nat
  | [] => 0
  | [c] => if c.is '\x60' then 0 else 1
  | c :: d :: t =>
    if c.is '\x60' || (c.is '$' && d.is '\x7b') then 0
    else if c.is '\\' then templateTextLength t + 2
    else templateTextLength (d :: t) + 1

/-- The name of an element or an attribute of markup at the current token. -/
def markupName : Reader Part := do
  let t := (← get).before.rest
  let length := (t.takeWhile fun c => continuesName c || c.isAny ['-', ':', '.']).length
  if length = 0 then failure else takeLength .property length

/-- The `>` at the end of a tag, and the place after it. -/
def markupTagEnd : Reader (Part × Place) := do
  let c ← get
  if c.kind = .punctuation && c.word.startsWith ">" then
    return (⟨c.comments.reverse, c.before.leaf .punctuation 1⟩, c.before.advance 1)
  else failure

/-- Wraps parts into a construct. -/
def made (kind : NodeKind) (parts : List Part) : Part :=
  Part.join kind parts

/-- A sequence if there is more than one part, or the part alone. -/
def sequenceOf : List Part → List Part
  | [] => []
  | [p] => [p]
  | ps => [made .sequence ps]

end MessageExtraction.Script
