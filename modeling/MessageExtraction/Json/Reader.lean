import MessageExtraction.Json.Basic

/-!
# Reading JSON

A document is one value with blanks around it. Besides the numbers of the
grammar, the words for infinity and for what is no number are read as numbers.
Two escapes that name the halves of a surrogate pair are one code point, and a
half that stands alone is kept. An integer of too many digits cannot be read,
although it is well formed.

## Main definitions

* `Json.Fault` -- why a document cannot be read.
* `Json.value` -- the value at the beginning of a text.
* `Json.read` -- the value of a document.
-/

namespace MessageExtraction.Json

/-- Why a document cannot be read. -/
inductive Fault
  /-- It does not follow the grammar. -/
  | malformed
  /-- It holds an integer of too many digits. -/
  | longInteger
deriving DecidableEq

/-- The blanks between the tokens of a document. -/
def isBlank (c : CodePoint) : Bool :=
  c.isAny [' ', '\t', '\n', '\r']

/-- A text without the blanks at its beginning. -/
def skipBlanks (t : Text) : Text :=
  t.dropWhile isBlank

/-- The number of digits that an integer may have. -/
def maxDigits : Nat := 4300

/-- What the letter after a backslash stands for. -/
def escaped? (c : CodePoint) : Option CodePoint :=
  if c.isAny ['\x22', '\\', '/'] then some c
  else if c.is 'b' then some '\x08'
  else if c.is 'f' then some '\x0c'
  else if c.is 'n' then some '\n'
  else if c.is 'r' then some '\r'
  else if c.is 't' then some '\t'
  else none

/-- The code point of a surrogate pair. -/
def paired? (high low : Nat) : Option CodePoint :=
  if 0xD800 ≤ high && high ≤ 0xDBFF && 0xDC00 ≤ low && low ≤ 0xDFFF then
    CodePoint.ofNat? (0x10000 + (high - 0xD800) * 0x400 + (low - 0xDC00))
  else none

/-- The code point of an escape by number, whose digits begin the text, and the rest. -/
def numbered? (t : Text) : Option (CodePoint × Text) :=
  match Text.fourHexDigits? t with
  | none => none
  | some (high, rest) =>
    let alone := (CodePoint.ofNat? high).map fun c => (c, rest)
    match Text.after? "\\u" rest with
    | none => alone
    | some digits =>
      match Text.fourHexDigits? digits with
      | none => alone
      | some (low, rest) =>
        match paired? high low with
        | some c => some (c, rest)
        | none => alone

/-- The text of a string whose opening mark has been read; each step reads at least one code
point. -/
def stringBody : (steps : Nat) → Text → Option (Text × Text)
  | 0, _ => none
  | _, [] => none
  | steps + 1, c :: t =>
    if c.is '\x22' then some ([], t)
    else if c.val < 0x20 then none
    else if c.is '\\' then
      match t with
      | [] => none
      | e :: t =>
        match (if e.is 'u' then numbered? t else (escaped? e).map fun c => (c, t)) with
        | none => none
        | some (c, t) => (stringBody steps t).map fun r => (c :: r.1, r.2)
    else (stringBody steps t).map fun r => (c :: r.1, r.2)

/-- The string at the beginning of a text. -/
def string (t : Text) : Except Fault (Text × Text) :=
  match t with
  | c :: rest =>
    if c.is '\x22' then
      match stringBody rest.length rest with
      | some r => .ok r
      | none => .error .malformed
    else .error .malformed
  | [] => .error .malformed

/-- The digits at the beginning of a text, and the rest. -/
def digits (t : Text) : Text × Text :=
  t.span CodePoint.isAsciiDigit

/-- The fraction at the beginning of a text, if there is one, and the rest. -/
def fraction (t : Text) : Text × Text :=
  match t with
  | c :: rest =>
    if c.is '.' && !(digits rest).1.isEmpty then (c :: (digits rest).1, (digits rest).2) else ([], t)
  | [] => ([], [])

/-- The exponent at the beginning of a text, if there is one, and the rest. -/
def exponent (t : Text) : Text × Text :=
  match t with
  | c :: rest =>
    let (sign, rest) : Text × Text := match rest with
      | s :: tail => if s.isAny ['+', '-'] then ([s], tail) else ([], rest)
      | [] => ([], [])
    if c.isAny ['e', 'E'] && !(digits rest).1.isEmpty then
      (c :: sign ++ (digits rest).1, (digits rest).2)
    else ([], t)
  | [] => ([], [])

/-- The digits of the integer at the beginning of a text, and the rest: a zero, or digits that begin
with another one. -/
def integer? (t : Text) : Option (Text × Text) :=
  match t with
  | [] => none
  | c :: rest =>
    if c.is '0' then some ([c], rest)
    else if c.isAsciiDigit then some (digits t)
    else none

/-- The number at the beginning of a text. -/
def number (t : Text) : Except Fault (Value × Text) :=
  let (sign, unsigned) : Text × Text := match t with
    | c :: rest => if c.is '-' then ([c], rest) else ([], t)
    | [] => ([], [])
  match integer? unsigned with
  | none => .error .malformed
  | some (whole, rest) =>
    let (fraction, rest) := fraction rest
    let (exponent, rest) := exponent rest
    if fraction.isEmpty && exponent.isEmpty && maxDigits < whole.length then .error .longInteger
    else .ok (.number (sign ++ whole ++ fraction ++ exponent), rest)

/-- The words that are values. -/
def words : List (Text × Value) :=
  [("null", .null), ("true", .bool true), ("false", .bool false), ("NaN", .number "NaN"),
    ("Infinity", .number "Infinity"), ("-Infinity", .number "-Infinity")]

/-- The word at the beginning of a text, if there is one, and the rest. -/
def word? (t : Text) : Option (Value × Text) :=
  words.findSome? fun w => (Text.after? w.1 t).map fun rest => (w.2, rest)

/-- The rest of a text after one character. -/
def symbol (ch : Char) : Text → Except Fault Text
  | [] => .error .malformed
  | c :: t => if c.is ch then .ok t else .error .malformed

mutual

/-- The value at the beginning of a text. -/
def value : (fuel : Nat) → Text → Except Fault (Value × Text)
  | 0, _ => .error .malformed
  | _, [] => .error .malformed
  | fuel + 1, c :: t =>
    if c.is '\x22' then do
      let (s, rest) ← string (c :: t)
      return (.string s, rest)
    else if c.is '[' then
      let t := skipBlanks t
      match symbol ']' t with
      | .ok rest => .ok (.array [], rest)
      | .error _ => do
        let (vs, rest) ← items fuel t
        return (.array vs, rest)
    else if c.is '\x7b' then
      let t := skipBlanks t
      match symbol '\x7d' t with
      | .ok rest => .ok (.object [], rest)
      | .error _ => do
        let (ms, rest) ← members fuel t
        return (.object (Table.ofList ms), rest)
    else match word? (c :: t) with
      | some r => .ok r
      | none => number (c :: t)

/-- The items of an array up to its end. -/
def items : (fuel : Nat) → Text → Except Fault (List Value × Text)
  | 0, _ => .error .malformed
  | fuel + 1, t => do
    let (v, rest) ← value fuel t
    match skipBlanks rest with
    | [] => .error .malformed
    | c :: rest =>
      if c.is ']' then return ([v], rest)
      else if c.is ',' then
        let (vs, rest) ← items fuel (skipBlanks rest)
        return (v :: vs, rest)
      else .error .malformed

/-- The members of an object up to its end. -/
def members : (fuel : Nat) → Text → Except Fault (List (Text × Value) × Text)
  | 0, _ => .error .malformed
  | fuel + 1, t => do
    let (name, rest) ← string t
    let rest ← symbol ':' (skipBlanks rest)
    let (v, rest) ← value fuel (skipBlanks rest)
    match skipBlanks rest with
    | [] => .error .malformed
    | c :: rest =>
      if c.is '\x7d' then return ([(name, v)], rest)
      else if c.is ',' then
        let (ms, rest) ← members fuel (skipBlanks rest)
        return ((name, v) :: ms, rest)
      else .error .malformed

end

/-- The value of a document. Every second step reads a code point, so that twice as many steps as
the document has code points are enough. -/
def read (document : Text) : Except Fault Value := do
  let (v, rest) ← value (2 * document.length + 2) (skipBlanks document)
  if (skipBlanks rest).isEmpty then return v else .error .malformed

end MessageExtraction.Json
