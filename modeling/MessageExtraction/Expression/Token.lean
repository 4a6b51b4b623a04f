import MessageExtraction.Text.Blank
import MessageExtraction.Text.Word
import MessageExtraction.Expression.Decimal

/-!
# Tokens of the expression language

An expression is a row of numerals, quoted strings, names and symbols with
blanks anywhere between them.

## Main definitions

* `Symbol` -- the punctuation and the operators, with their spelling.
* `Lexeme` -- what a token stands for.
* `Token` -- a lexeme, the text that spells it and where that text begins.
* `Expression.unescape` -- the value of the body of a quoted string.
* `Expression.tokenize` -- the tokens of a text.
-/

namespace MessageExtraction.Expression

/-- The symbols of the language. -/
inductive Symbol
  | strictEqual | strictUnequal | equal | unequal | atMost | atLeast | and | or
  | plus | minus | times | divide | modulo | less | greater | not | assign
  | pipe | colon | question | comma | dot | semicolon
  | openParen | closeParen | openBracket | closeBracket | openBrace | closeBrace
deriving DecidableEq

namespace Symbol

/-- How a symbol is written. -/
def spelling : Symbol → List Char
  | strictEqual => ['=', '=', '=']
  | strictUnequal => ['!', '=', '=']
  | equal => ['=', '=']
  | unequal => ['!', '=']
  | atMost => ['<', '=']
  | atLeast => ['>', '=']
  | and => ['&', '&']
  | or => ['|', '|']
  | plus => ['+']
  | minus => ['-']
  | times => ['*']
  | divide => ['/']
  | modulo => ['%']
  | less => ['<']
  | greater => ['>']
  | not => ['!']
  | assign => ['=']
  | pipe => ['|']
  | colon => [':']
  | question => ['?']
  | comma => [',']
  | dot => ['.']
  | semicolon => [';']
  | openParen => ['(']
  | closeParen => [')']
  | openBracket => ['[']
  | closeBracket => [']']
  | openBrace => ['\x7b']
  | closeBrace => ['\x7d']

/-- The text of a symbol. -/
def text (s : Symbol) : Text :=
  s.spelling.map CodePoint.ofChar

/-- All symbols, a symbol that begins another one after it. -/
def all : List Symbol :=
  [strictEqual, strictUnequal, equal, unequal, atMost, atLeast, and, or,
    plus, minus, times, divide, modulo, less, greater, not, assign,
    pipe, colon, question, comma, dot, semicolon,
    openParen, closeParen, openBracket, closeBracket, openBrace, closeBrace]

/-- The longest symbol at the start of a text. -/
def scan (t : Text) : Option Symbol :=
  all.find? fun s => t.startsWith s.text

end Symbol

/-- What a token stands for. -/
inductive Lexeme
  | number (value : Decimal)
  | string (value : Text)
  | name
  | symbol (s : Symbol)
deriving DecidableEq

/-- A lexeme, the text that spells it, and the offset of that text. -/
structure Token where
  lexeme : Lexeme
  text : Text
  index : Nat
deriving DecidableEq

/-- The code points that a letter escape stands for. -/
def escapeNames : List (Char × Char) :=
  [('n', '\n'), ('f', '\x0c'), ('r', '\r'), ('t', '\t'), ('v', '\x0b')]

/-- The code point whose number the first four code points of a text write in hexadecimal digits,
and the rest. -/
def numbered? (t : Text) : Option (CodePoint × Text) :=
  (Text.fourHexDigits? t).bind fun (n, rest) => (CodePoint.ofNat? n).map fun point => (point, rest)

/-- What an escape letter stands for outside the numbered form. -/
def escapeValue (c : CodePoint) : CodePoint :=
  match escapeNames.find? fun e => c.is e.1 with
  | some e => CodePoint.ofChar e.2
  | none => c

theorem numbered?_eq_some {t rest : Text} {point : CodePoint} :
    numbered? t = some (point, rest) ↔
      ∃ n, Text.fourHexDigits? t = some (n, rest) ∧ CodePoint.ofNat? n = some point := by
  simp only [numbered?, Option.bind_eq_some_iff, Option.map_eq_some_iff, Prod.exists, Prod.mk.injEq]
  constructor
  · rintro ⟨n, rest', hdigits, p, hp, rfl, rfl⟩
    exact ⟨n, hdigits, hp⟩
  · rintro ⟨n, hdigits, hp⟩
    exact ⟨n, rest, hdigits, point, hp, rfl, rfl⟩

theorem length_of_numbered? {t rest : Text} {point : CodePoint}
    (h : numbered? t = some (point, rest)) : rest.length < t.length := by
  obtain ⟨n, hdigits, -⟩ := numbered?_eq_some.mp h
  exact Text.length_of_fourHexDigits? hdigits

/-- The value of the body of a quoted string. A backslash with `u` and four hexadecimal digits
names a code point; before any other code point it names what `escapeValue` says; a backslash at
the end stands for itself. -/
def unescape : Text → Text
  | [] => []
  | [c] => [c]
  | c :: d :: t =>
    if c.is '\\' then
      if d.is 'u' then
        match _h : numbered? t with
        | some (point, rest) => point :: unescape rest
        | none => d :: unescape t
      else escapeValue d :: unescape t
    else c :: unescape (d :: t)
termination_by t => t.length
decreasing_by
  · have := length_of_numbered? ‹_›
    simp only [List.length_cons]
    omega
  all_goals simp only [List.length_cons]; omega

/-- The body of a quoted string, up to the closing mark, and the text after that mark. -/
def quotedBody (mark : CodePoint) : Text → Option (Text × Text)
  | [] => none
  | [c] => if c = mark then some ([], []) else none
  | c :: d :: t =>
    if c = mark then some ([], d :: t)
    else if c.is '\\' then (quotedBody mark t).map fun (body, rest) => (c :: d :: body, rest)
    else (quotedBody mark (d :: t)).map fun (body, rest) => (c :: body, rest)

/-- Whether a name can begin with a code point. -/
def startsName (c : CodePoint) : Bool :=
  c.isAsciiLetter || c.is '_' || c.is '$'

/-- Whether a name can go on with a code point. -/
def continuesName (c : CodePoint) : Bool :=
  c.isWord || c.is '$'

/-- The lexeme at the start of a text, and the length of its spelling. -/
def lexeme? : Text → Option (Lexeme × Nat)
  | [] => none
  | c :: t =>
    match Decimal.scan (c :: t) with
    | some (value, n) => some (.number value, n)
    | none =>
      if c.is '\x27' || c.is '\x22' then
        (quotedBody c t).map fun (body, _) => (.string (unescape body), body.length + 2)
      else if startsName c then
        some (.name, 1 + (t.takeWhile continuesName).length)
      else (Symbol.scan (c :: t)).map fun s => (.symbol s, s.spelling.length)

/-- A code point at which no token and no blank begins, and its offset. -/
structure StrayCodePoint where
  point : CodePoint
  index : Nat

/-- The tokens of a text whose first code point has a given offset. -/
def tokenizeFrom (index : Nat) : Text → Except StrayCodePoint (List Token)
  | [] => .ok []
  | c :: t =>
    if c.isBlank then tokenizeFrom (index + 1) t
    else match lexeme? (c :: t) with
      | none => .error ⟨c, index⟩
      | some (lexeme, n) => do
        let tokens ← tokenizeFrom (index + n) (t.drop (n - 1))
        .ok (⟨lexeme, (c :: t).take n, index⟩ :: tokens)
termination_by t => t.length
decreasing_by
  · simp
  · simp only [List.length_drop, List.length_cons]
    omega

/-- The tokens of a text, or the first code point that belongs to none. -/
def tokenize (t : Text) : Except StrayCodePoint (List Token) :=
  tokenizeFrom 0 t

end MessageExtraction.Expression
