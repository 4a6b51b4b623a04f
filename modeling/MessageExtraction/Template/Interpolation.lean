import MessageExtraction.Text.Blank

/-!
# Interpolations

Templates write expressions between two delimiters. An interpolation begins with
the opening delimiter, may go on with blanks and a mark for one-time binding,
and extends to the nearest closing delimiter on the same line. A translated
literal is a quoted text piped into the filter `translate`; with delimiters it
stands after the opening one, and without them at the start of a value.

## Main definitions

* `Delimiters` -- an opening and a closing text.
* `Delimiters.interpolations` -- the interpolations in a text.
* `Delimiters.literals` -- the translated literals in a text.
-/

namespace MessageExtraction.Template

/-- The texts that an interpolation begins and ends with. -/
structure Delimiters where
  opening : Text
  closing : Text
deriving DecidableEq

/-- What is found in a text, and its first and its last offset. -/
structure Found (α : Type) where
  start : Nat
  stop : Nat
  value : α

/-- The mark for one-time binding. -/
def bindingMark : Text :=
  [':', ':'].map CodePoint.ofChar

/-- The offset of the nearest closing delimiter on the same line, at least `least`. -/
def closingOffset? (closing : Text) : (least : Nat) → Text → Option Nat
  | least, [] => if least = 0 && closing.isEmpty then some 0 else none
  | least, c :: t =>
    if least = 0 && Text.startsWith (c :: t) closing then some 0
    else if c.is '\n' then none
    else (closingOffset? closing (least - 1) t).map (· + 1)

/-- How many code points after the opening delimiter may not belong to the expression, in the order
in which they are tried: all blanks and a mark, then all blanks, then fewer and fewer of them. -/
def skips (t : Text) : List Nat :=
  let blanks := Text.blankLength t
  let marked := if Text.startsWith (t.drop blanks) bindingMark then [blanks + 2] else []
  marked ++ (List.range (blanks + 1)).reverse

/-- The expression of the interpolation at the start of a text, and the length of the whole, which
with `nonEmpty` is not zero. -/
def Delimiters.interpolationAt? (d : Delimiters) (nonEmpty : Bool) (t : Text) :
    Option (Text × Nat) :=
  (Text.after? d.opening t).bind fun rest =>
    (skips rest).findSome? fun skip =>
      let fixed := d.opening.length + skip + d.closing.length
      let least := if nonEmpty && fixed = 0 then 1 else 0
      (closingOffset? d.closing least (rest.drop skip)).map fun n =>
        ((rest.drop skip).take n, fixed + n)

/-- How a text is searched: what is found at the start of a text with a given offset, and its
length, which with `nonEmpty` is not zero. -/
abbrev Recogniser (α : Type) := (nonEmpty : Bool) → (offset : Nat) → Text → Option (α × Nat)

/-- All that a recogniser finds in a text from an offset on, from left to right and without
overlaps. After a find of length zero only a longer one may begin at its place. -/
def findFrom {α : Type} (recognise : Recogniser α) (nonEmpty : Bool) (offset : Nat) :
    Text → List (Found α)
  | [] =>
    match recognise nonEmpty offset [] with
    | some (value, _) => if nonEmpty then [] else [⟨offset, offset, value⟩]
    | none => []
  | c :: t =>
    match recognise nonEmpty offset (c :: t) with
    | none => findFrom recognise false (offset + 1) t
    | some (value, n + 1) =>
      ⟨offset, offset + n + 1, value⟩ :: findFrom recognise false (offset + n + 1) (t.drop n)
    | some (value, 0) =>
      if nonEmpty = true then findFrom recognise false (offset + 1) t
      else ⟨offset, offset, value⟩ :: findFrom recognise true offset (c :: t)
termination_by t => 2 * t.length + (if nonEmpty = true then 0 else 1)
decreasing_by
  · simp only [List.length_cons, if_false]; omega
  · simp only [List.length_cons, List.length_drop, if_false]; omega
  · simp only [List.length_cons, if_false]; omega
  · simp_all

/-- The interpolations in a text: their expressions, a mark for one-time binding left out. -/
def Delimiters.interpolations (d : Delimiters) (t : Text) : List (Found Text) :=
  findFrom (fun nonEmpty _ t => d.interpolationAt? nonEmpty t) false 0 t

/-- The expressions of the interpolations in a text. -/
def Delimiters.expressions (d : Delimiters) (t : Text) : List Text :=
  (d.interpolations t).map (·.value)

/-- A translated literal: its quotation mark, the text between the marks, and what ends it. -/
structure TranslatedLiteral where
  mark : Text
  body : Text
  ending : Text

/-- The quotation marks of literals and the entities for them. -/
def literalMarks : List Text :=
  [['\x27'], ['\x22'], ['&', 'q', 'u', 'o', 't', ';'], ['&', '#', '3', '9', ';']].map
    (·.map CodePoint.ofChar)

/-- The number of code points of a text after which a given text comes, blanks before it allowed. -/
def afterBlanks? (expected t : Text) : Option Nat :=
  let blanks := Text.blankLength t
  if Text.startsWith (t.drop blanks) expected then some (blanks + expected.length) else none

/-- The ending after the filter: the closing delimiter or a bar, after as many blanks as possible;
with the number of the blanks. -/
def endingAt? (closing t : Text) : Option (Text × Nat) :=
  (List.range (Text.blankLength t + 1)).reverse.findSome? fun blanks =>
    let rest := t.drop blanks
    if Text.startsWith rest closing then some (closing, blanks)
    else if Text.startsWith rest ['|'] then some (['|'], blanks)
    else none

/-- What pipes a literal into the filter and ends there, and its length. -/
def pipedEnd? (closing t : Text) : Option (Text × Nat) := do
  let bar ← afterBlanks? ['|'] t
  let name ← afterBlanks? "translate" (t.drop bar)
  let (ending, blanks) ← endingAt? closing (t.drop (bar + name))
  return (ending, bar + name + blanks + ending.length)

/-- The body of a literal up to the nearest mark after which the literal is piped into the filter,
on one line, with the ending and the length of all after the body. -/
def literalBody? (closing mark : Text) : Text → Option (Text × Text × Nat)
  | [] => none
  | c :: t =>
    let here := (Text.after? mark (c :: t)).bind fun rest =>
      (pipedEnd? closing rest).map fun (ending, n) => (ending, mark.length + n)
    match here with
    | some (ending, n) => some ([], ending, n)
    | none =>
      if c.is '\n' then none
      else (literalBody? closing mark t).map fun (body, ending, n) => (c :: body, ending, n)

/-- The number of code points of a text that a mark for one-time binding takes, blanks around it
included; none if there is no mark. -/
def bindingLength (t : Text) : Nat :=
  match afterBlanks? bindingMark t with
  | some n => n + Text.blankLength (t.drop n)
  | none => 0

/-- The translated literal at the start of a text, and its length. -/
def Delimiters.literalAt? (d : Delimiters) (offset : Nat) (t : Text) :
    Option (TranslatedLiteral × Nat) := do
  let bare := d.opening.isEmpty && d.closing.isEmpty
  let rest ← if bare then (if offset = 0 then some t else none) else Text.after? d.opening t
  let binding := if bare then 0 else bindingLength rest
  let skipped := binding + Text.blankLength (rest.drop binding)
  let quoted := rest.drop skipped
  let mark ← literalMarks.find? fun m => Text.startsWith quoted m
  let (body, ending, n) ← literalBody? d.closing mark (quoted.drop mark.length)
  return (⟨mark, body, ending⟩, d.opening.length + skipped + mark.length + body.length + n)

/-- The translated literals in a text. -/
def Delimiters.literals (d : Delimiters) (t : Text) : List (Found TranslatedLiteral) :=
  findFrom (fun _ offset t => d.literalAt? offset t) false 0 t

end MessageExtraction.Template
