import MessageExtraction.Script.Tree

/-!
# Tokens of scripts

Between two tokens stand blanks and comments. A token is a name, a private
name, a number, a quoted string or punctuation; whether a slash begins a regular
expression, and a `<` an element of markup, depends on what precedes it and is
for the reader of the tree to say. A new row begins after a line feed only, but
any line terminator can end a statement.

## Main definitions

* `Script.Cursor` -- a token, what precedes it, and the source after it.
* `Script.Cursor.start` -- the first token of a source.
* `Script.Cursor.next` -- the token after a token.
-/

namespace MessageExtraction.Script

/-- Whether a code point ends a line. -/
def isLineEnd (c : CodePoint) : Bool :=
  c.isAny ['\n', '\r', '\u2028', '\u2029']

/-- Whether a code point separates tokens without being part of one. -/
def isSeparator (c : CodePoint) : Bool :=
  c.between '\t' '\r' || c.isAny [' ', '\u0085', '\u00a0', '\u1680', '\u202f', '\u205f', '\u3000',
    '\u2028', '\u2029', '\ufeff', '\u2060'] || c.between '\u2000' '\u200b'

/-- Whether a name goes on with a code point. -/
def continuesName (c : CodePoint) : Bool :=
  !(c.val < 0x20 || isSeparator c || c.isAny [':', ';', '\x60', '\x22', '\x27', '@', '#', '.', ',',
    '|', '^', '&', '<', '=', '>', '+', '-', '*', '/', '\\', '%', '?', '!', '~', '(', ')', '[', ']',
    '\x7b', '\x7d'])

/-- Whether a name begins with a code point. -/
def startsName (c : CodePoint) : Bool :=
  continuesName c && !c.isAsciiDigit

/-- The length of a numbered escape in a name at the start of a text. -/
def nameEscapeLength? (t : Text) : Option Nat :=
  match Text.after? ['\\', 'u'] t with
  | none => none
  | some rest =>
    let digits := (rest.takeWhile fun c => c.hexValue?.isSome).length
    if 4 ≤ digits then some 6
    else match rest with
      | c :: rest =>
        let digits := (rest.takeWhile fun c => c.hexValue?.isSome).length
        if c.is '\x7b' && 0 < digits && Text.startsWith (rest.drop digits) ['\x7d'] then
          some (digits + 4)
        else none
      | [] => none

/-- The length of what goes on with a name at the start of a text. -/
def nameTailLength : Text → Nat
  | [] => 0
  | c :: t =>
    if continuesName c then nameTailLength t + 1
    else match nameEscapeLength? (c :: t) with
      | some n => n + nameTailLength (t.drop (n - 1))
      | none => 0
termination_by t => t.length
decreasing_by
  · simp
  · simp only [List.length_drop, List.length_cons]
    omega

/-- The length of the name at the start of a text, zero if there is none. -/
def nameLength : Text → Nat
  | [] => 0
  | c :: t =>
    if startsName c || (nameEscapeLength? (c :: t)).isSome then nameTailLength (c :: t) else 0

/-- The length of the exponent at the start of a text, zero if there is none. -/
def exponentLength : Text → Nat
  | [] => 0
  | c :: t =>
    if c.isAny ['e', 'E'] then
      let sign := match t with
        | d :: _ => if d.isAny ['+', '-'] then 1 else 0
        | [] => 0
      let digits := ((t.drop sign).takeWhile fun d => d.isAsciiDigit || d.is '_').length
      if 0 < digits then 1 + sign + digits else 0
    else 0

/-- The length of the number at the start of a text that begins with a digit or a point. -/
def numberLength (t : Text) : Nat :=
  let radix := match t with
    | a :: b :: _ => a.is '0' && b.isAny ['x', 'X', 'b', 'B', 'o', 'O']
    | _ => false
  if radix then
    (t.takeWhile fun c => c.isAsciiDigit || c.isAsciiLetter || c.is '_').length
  else
    let isDigit (c : CodePoint) : Bool := c.isAsciiDigit || c.is '_'
    let whole := (t.takeWhile isDigit).length
    let fraction := match t.drop whole with
      | c :: rest => if c.is '.' then 1 + (rest.takeWhile isDigit).length else 0
      | [] => 0
    let length := whole + fraction
    let length := length + exponentLength (t.drop length)
    if Text.startsWith (t.drop length) ['n'] then length + 1 else length

/-- The length of the body of a quoted string and its closing mark. -/
def stringTailLength? (mark : CodePoint) : Text → Option Nat
  | [] => none
  | [c] => if c = mark then some 1 else none
  | c :: d :: t =>
    if c = mark then some 1
    else if c.is '\\' then
      match t with
      | e :: rest =>
        if d.is '\r' && e.is '\n' then (stringTailLength? mark rest).map (· + 3)
        else (stringTailLength? mark (e :: rest)).map (· + 2)
      | [] => none
    else if c.isAny ['\n', '\r'] then none
    else (stringTailLength? mark (d :: t)).map (· + 1)

/-- The punctuation of more than one character, the longest first. -/
def longPunctuation : List String :=
  [">>>=", "...", "===", "!==", "**=", "<<=", ">>=", ">>>", "&&=", "||=", "??=", "=>", "==", "!=",
    "<=", ">=", "&&", "||", "??", "?.", "++", "--", "+=", "-=", "*=", "/=", "%=", "&=", "|=", "^=",
    "<<", ">>", "**"]

/-- The punctuation of more than one character as texts. -/
def longPunctuationTexts : List Text :=
  longPunctuation.map Text.ofString

/-- The length of the punctuation at the start of a text. A question mark and a point before a
digit are two pieces of punctuation. -/
def punctuationLength (t : Text) : Nat :=
  match longPunctuationTexts.find? fun p => t.startsWith p with
  | some p =>
    if p.is "?." && ((t.drop 2).head?.map CodePoint.isAsciiDigit).getD false then 1 else p.length
  | none => 1

/-- The kinds of tokens. -/
inductive TokenKind
  | name | privateName | number | string | punctuation | stray | endOfSource
deriving DecidableEq

/-- The kind and the length of the token at the start of a text. -/
def tokenAt : Text → TokenKind × Nat
  | [] => (.endOfSource, 0)
  | c :: t =>
    let name := nameLength (c :: t)
    if 0 < name then (.name, name)
    else if c.isAsciiDigit || (c.is '.' && (t.head?.map CodePoint.isAsciiDigit).getD false) then
      (.number, numberLength (c :: t))
    else if c.isAny ['\x22', '\x27'] then
      match stringTailLength? c t with
      | some n => (.string, n + 1)
      | none => (.stray, 1)
    else if c.is '#' then
      let name := nameLength t
      if 0 < name then (.privateName, name + 1) else (.stray, 1)
    else if c.is '\\' || c.val < 0x20 then (.stray, 1)
    else (.punctuation, punctuationLength (c :: t))

/-- A place in a source: the text from there on and its row. -/
structure Place where
  rest : Text
  row : Nat

/-- The place after a number of code points. -/
def Place.advance (p : Place) (n : Nat) : Place :=
  ⟨p.rest.drop n, p.row + Text.lineFeeds (p.rest.take n)⟩

/-- The leaf of the next code points at a place. -/
def Place.leaf (p : Place) (kind : LeafKind) (n : Nat) : Tree :=
  .leaf kind (p.rest.take n) p.row (p.advance n).row

/-- The length of the comment at the start of a text. -/
def commentLength? (t : Text) : Option Nat :=
  if Text.startsWith t ['/', '/'] then some (t.takeWhile fun c => !isLineEnd c).length
  else match Text.after? ['/', '*'] t with
    | some body => (closed body).map (· + 2)
    | none => none
where
  /-- The length up to the end of a block comment. -/
  closed : Text → Option Nat
    | [] => none
    | [_] => none
    | c :: d :: t =>
      if c.is '*' && d.is '/' then some 2 else (closed (d :: t)).map (· + 1)

/-- What stands between two tokens: comments, in reverse, whether a line ends there, and the place
of the later token. -/
structure Gap where
  comments : List Tree
  lineEnds : Bool
  place : Place

/-- Passes over blanks and comments from a row on; `comments` are those before, in reverse, and
`lineEnds` says that a line has ended. -/
def passGap (comments : List Tree) (lineEnds : Bool) (row : Nat) : Text → Gap
  | [] => ⟨comments, lineEnds, ⟨[], row⟩⟩
  | c :: t =>
    if isSeparator c then
      passGap comments (lineEnds || isLineEnd c) (if c.is '\n' then row + 1 else row) t
    else
      let place : Place := ⟨c :: t, row⟩
      match commentLength? (c :: t) with
      | some length =>
        passGap (place.leaf .comment length :: comments)
          (lineEnds || (place.rest.take length).any isLineEnd) (place.advance length).row
          (t.drop (length - 1))
      | none => ⟨comments, lineEnds, place⟩
termination_by t => t.length
decreasing_by
  · simp
  · simp only [List.length_drop, List.length_cons]
    omega

/-- A token: the comments before it, in reverse, whether a line ends between the previous token
and it, its length, and the places of its beginning and its end. -/
structure Cursor where
  comments : List Tree
  lineEnds : Bool
  kind : TokenKind
  word : String
  length : Nat
  before : Place
  after : Place

namespace Cursor

/-- The first token after a gap. -/
def ofGap (g : Gap) : Cursor :=
  let (kind, length) := tokenAt g.place.rest
  let word := String.ofList ((g.place.rest.take length).map fun c => Char.ofNat c.val)
  ⟨g.comments, g.lineEnds, kind, word, length, g.place, g.place.advance length⟩

/-- The first token from a place on, after comments in reverse. -/
def ofPlace (p : Place) (comments : List Tree := []) (lineEnds : Bool := false) : Cursor :=
  ofGap (passGap comments lineEnds p.row p.rest)

/-- The token after a token. -/
def next (c : Cursor) : Cursor :=
  ofPlace c.after

/-- The first token of a source; a first line that names an interpreter stands before
it as a comment does. -/
def start (source : Text) : Cursor :=
  let p : Place := ⟨source, 0⟩
  if Text.startsWith source ['#', '!'] then
    let length := (source.takeWhile fun c => !isLineEnd c).length
    ofPlace (p.advance length) [p.leaf .interpreterLine length]
  else ofPlace p

/-- The part of a token as a leaf of a kind. -/
def part (c : Cursor) (kind : LeafKind) : Part :=
  ⟨c.comments.reverse, .leaf kind (c.before.rest.take c.length) c.before.row c.after.row⟩

/-- Whether a token is a piece of punctuation. -/
def isPunctuation (c : Cursor) (word : String) : Bool :=
  c.kind = .punctuation && c.word = word

/-- Whether a token is a word. -/
def isWord (c : Cursor) (word : String) : Bool :=
  c.kind = .name && c.word = word

/-- Whether a token is one of several words. -/
def isOneOf (c : Cursor) (words : List String) : Bool :=
  c.kind = .name && words.contains c.word

/-- Whether the source has ended. -/
def atEnd (c : Cursor) : Bool :=
  c.kind = .endOfSource

end Cursor

end MessageExtraction.Script
