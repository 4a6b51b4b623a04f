import MessageExtraction.Scan
import MessageExtraction.Script.Token

/-!
# Values of string literals

The body of a string literal is a row of fragments: escapes, each of them a
backslash with what belongs to it, and single code points. A line end after a
backslash has no value, a letter or a number names a code point, and any other
escape stands for what follows the backslash. A `+` joins the values of its
operands, as long as both have one.

## Main definitions

* `Script.escapeLength` -- how much belongs to an escape.
* `Script.unescape` -- the value of an escape.
* `Script.literalValue` -- the value of a string literal.
* `Script.Tree.value?` -- the value of an argument.
-/

namespace MessageExtraction.Script

/-- The code points that letter escapes stand for. -/
def letterEscapes : List (Char × Char) :=
  [('b', '\x08'), ('f', '\x0c'), ('n', '\n'), ('r', '\r'), ('t', '\t'), ('v', '\x0b'), ('0', '\x00')]

/-- A code point of a number in its plain form: a blank beyond ASCII is a space, and a decimal
digit of any script is an ASCII digit. -/
def plainDigit (c : CodePoint) : CodePoint :=
  if c.val < 0x80 then c
  else if c.isBlank then ' '
  else match c.digit? with
    | some n => (CodePoint.ofNat? ('0'.toNat + n)).getD c
    | none => c

/-- The number of hexadecimal digits; a low line may stand between two of them. -/
def hexDigits? (value : Nat) (afterDigit : Bool) : Text → Option Nat
  | [] => if afterDigit then some value else none
  | c :: t =>
    if c.is '_' then if afterDigit then hexDigits? value false t else none
    else match c.hexValue? with
      | some n => hexDigits? (16 * value + n) true t
      | none => none

/-- The hexadecimal number that a text is, blanks around it, a sign and the mark `0x` allowed. -/
def hexNumber? (t : Text) : Option Int :=
  let isSpace (c : CodePoint) : Bool := c.between '\t' '\r' || c.is ' '
  let t := Text.stripWhile isSpace (t.map plainDigit)
  let (negative, t) := match t with
    | c :: rest => if c.is '-' then (true, rest) else if c.is '+' then (false, rest) else (false, t)
    | [] => (false, t)
  let digits := match t with
    | a :: b :: rest =>
      if a.is '0' && b.isAny ['x', 'X'] then
        match rest with
        | c :: others => if c.is '_' then others else rest
        | [] => rest
      else t
    | _ => t
  (hexDigits? 0 false digits).map fun n => if negative then -(n : Int) else n

/-- The greatest number that fits a machine word. -/
def wordLimit : Int := 2147483647

/-- The code point that a number names. -/
def codePointOf (n : Int) : Except ScanFailure CodePoint :=
  if wordLimit < n || n < -wordLimit - 1 then .error .escapeOverflow
  else if n < 0 then .error .invalidEscape
  else match CodePoint.ofNat? n.toNat with
    | some c => .ok c
    | none => .error .invalidEscape

/-- The value of the body of an escape, the backslash left out. -/
def unescapeBody (body : Text) : Except ScanFailure Text :=
  match body with
  | [] => .ok []
  | c :: rest =>
    if isLineEnd c then .ok []
    else if c.is 'u' && Text.startsWith rest ['\x7b'] && Text.endsWith rest ['\x7d'] then
      match hexNumber? (rest.drop 1).dropLast with
      | some n => (codePointOf n).map fun c => [c]
      | none => .error .invalidEscape
    else if c.isAny ['u', 'x'] && !rest.isEmpty then
      match hexNumber? rest with
      | none => .ok body
      | some n =>
        match codePointOf n with
        | .ok c => .ok [c]
        | .error .invalidEscape => .ok body
        | .error e => .error e
    else if rest.isEmpty then
      match letterEscapes.find? fun e => c.is e.1 with
      | some e => .ok [CodePoint.ofChar e.2]
      | none => .ok body
    else .ok body

/-- The value of an escape. -/
def unescape (escape : Text) : Except ScanFailure Text :=
  unescapeBody (escape.drop 1)

/-- How many code points after a backslash belong to its escape. -/
def escapeLength : Text → Nat
  | [] => 0
  | c :: t =>
    let hexLength := (t.takeWhile fun d => d.hexValue?.isSome).length
    if c.between '0' '7' then 1 + ((t.take 2).takeWhile fun d => d.between '0' '7').length
    else if c.is 'x' && 2 ≤ hexLength then 3
    else if c.is 'u' && 4 ≤ hexLength then 5
    else if c.is 'u' && Text.startsWith t ['\x7b'] then
      let digits := ((t.drop 1).takeWhile fun d => d.hexValue?.isSome).length
      if 0 < digits && Text.startsWith (t.drop (1 + digits)) ['\x7d'] then digits + 3 else 1
    else if c.is '\r' && Text.startsWith t ['\n'] then 2
    else 1

/-- The escapes and the single code points of the body of a literal. -/
def fragments : Text → List Text
  | [] => []
  | c :: t =>
    let n := if c.is '\\' then escapeLength t else 0
    (c :: t.take n) :: fragments (t.drop n)
termination_by t => t.length
decreasing_by
  simp only [List.length_drop, List.length_cons]
  omega

/-- The value of a fragment. -/
def fragmentValue (fragment : Text) : Except ScanFailure Text :=
  match fragment with
  | c :: _ :: _ => if c.is '\\' then unescape fragment else .ok fragment
  | _ => .ok fragment

/-- The value of a string literal between its marks. -/
def literalValue (literal : Text) : Except ScanFailure Text := do
  let values ← (fragments (literal.drop 1).dropLast).mapM fragmentValue
  return values.flatten

/-- Whether a construct joins its operands by a `+`. -/
def joinsByPlus (children : List Tree) : Bool :=
  match children.find? fun c => !c.isComment && !c.isNamed with
  | some (.leaf _ text _ _) => text.is "+"
  | _ => false

mutual

/-- The value of an argument: that of a string literal, or of literals joined by `+`. -/
def Tree.value? : Tree → Except ScanFailure (Option Text)
  | .leaf .string text _ _ => (literalValue text).map some
  | .node .binary children =>
    if joinsByPlus children then do
      match ← operandValues children with
      | [some left, some right] => .ok (some (left ++ right))
      | _ => .ok none
    else .ok none
  | _ => .ok none

/-- The values of the operands among the children of a construct. -/
def operandValues : List Tree → Except ScanFailure (List (Option Text))
  | [] => .ok []
  | t :: ts => do
    if t.isComment || !t.isNamed then operandValues ts
    else
      let value ← t.value?
      return value :: (← operandValues ts)

end

end MessageExtraction.Script
