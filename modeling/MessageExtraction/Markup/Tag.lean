import MessageExtraction.Text.Blank
import MessageExtraction.Text.LowerCase

/-!
# Start tags

A start tag is a name and attributes, with blanks and slashes anywhere between
them. A value follows one or more equals signs, between quotation marks or
bare. A mark that is never closed begins no quoted value: after blanks the value
is then empty, after a second equals sign it is bare and begins with that sign,
and otherwise the tag cannot be read to its end.

## Main definitions

* `Attribute` -- the name and the value of an attribute, the name in lower case.
* `StartTag` -- the name and the attributes of a tag.
* `StartTag.read` -- the start tag at the beginning of a text.
-/

namespace MessageExtraction.Markup

/-- The name and the value of an attribute. -/
structure Attribute where
  name : Text
  value : Text
deriving DecidableEq

/-- A start tag as it is written. -/
structure StartTag where
  name : Text
  attributes : List Attribute
  selfClosing : Bool
deriving DecidableEq

/-- The length of the gap at the start of a text: blanks, and slashes that no `>` follows. -/
def gapLength : Text → Nat
  | [] => 0
  | c :: t =>
    if c.isBlank || (c.is '/' && !Text.startsWith t ['>']) then gapLength t + 1 else 0

/-- Whether the name of a tag goes on with a code point. -/
def continuesTagName (c : CodePoint) : Bool :=
  !c.isAny ['\t', '\n', '\r', '\x0c', ' ', '/', '>', '\x00']

/-- The length of the tag name at the start of a text. -/
def tagNameLength? : Text → Option Nat
  | [] => none
  | c :: t => if c.isAsciiLetter then some ((t.takeWhile continuesTagName).length + 1) else none

/-- Whether a code point is a quotation mark. -/
def isMark (c : CodePoint) : Bool :=
  c.isAny ['\x27', '\x22']

/-- Whether a bare value goes on with a code point. -/
def continuesBareValue (c : CodePoint) : Bool :=
  !(c.is '>' || c.isBlank)

/-- The value at the start of a text and its length; a mark that is never closed begins none. -/
def value? : Text → Option (Text × Nat)
  | [] => some ([], 0)
  | c :: t =>
    if isMark c then
      let body := t.takeWhile fun d => d ≠ c
      if body.length < t.length then some (body, body.length + 2) else none
    else
      let bare := (c :: t).takeWhile continuesBareValue
      some (bare, bare.length)

/-- The value that equals signs at the start of a text assign, and the length up to its end. -/
def assignedValue? (t : Text) : Option (Text × Nat) :=
  let before := Text.blankLength t
  let signs := ((t.drop before).takeWhile fun c => c.is '=').length
  let blanks := Text.blankLength (t.drop (before + signs))
  let start := before + signs + blanks
  if signs = 0 then none
  else match value? (t.drop start) with
    | some (value, n) => some (value, start + n)
    | none =>
      if 0 < blanks then some ([], start - 1)
      else if 1 < signs then
        let bare := (t.drop (start - 1)).takeWhile continuesBareValue
        some (bare, start - 1 + bare.length)
      else none

/-- Whether an attribute may begin after a code point. -/
def separatesAttributes (c : CodePoint) : Bool :=
  isMark c || c.isBlank || c.is '/'

/-- Whether the name of an attribute goes on with a code point. -/
def continuesAttributeName (c : CodePoint) : Bool :=
  !(c.isBlank || c.isAny ['/', '=', '>'])

/-- The attribute at the start of a text that stands after `before`, and its length with the gap
after it, less one. -/
def readAttribute? (before : CodePoint) : Text → Option (Attribute × Nat)
  | [] => none
  | c :: t =>
    if separatesAttributes before && !(c.isBlank || c.isAny ['/', '>']) then
      let name := c :: t.takeWhile continuesAttributeName
      let afterName := (c :: t).drop name.length
      let (value, n) := (assignedValue? afterName).getD ([], 0)
      some (⟨Text.lower name, value⟩, name.length + n + gapLength (afterName.drop n) - 1)
    else none

/-- The attributes at the start of a text that stands after `before`, and what follows them. -/
def readAttributes (before : CodePoint) : Text → List Attribute × Text
  | [] => ([], [])
  | c :: t =>
    match readAttribute? before (c :: t) with
    | none => ([], c :: t)
    | some (a, n) =>
      let (others, rest) := readAttributes ((t.take n).getLastD c) (t.drop n)
      (a :: others, rest)
termination_by t => t.length
decreasing_by
  simp only [List.length_drop, List.length_cons]
  omega

/-- What can stand at the beginning of a text where a start tag is expected. -/
inductive StartTagReading
  /-- A start tag, and what follows it. -/
  | tag (tag : StartTag) (rest : Text)
  /-- Something that begins like a start tag but is none, and what follows it. -/
  | stray (rest : Text)
  /-- Something that does not end. -/
  | endless

/-- The start tag at the beginning of a text, the opening `<` left out. -/
def StartTag.read (t : Text) : StartTagReading :=
  match tagNameLength? t with
  | none => .endless
  | some n =>
    let afterName := t.drop n
    let head := n + gapLength afterName
    let before := (t.take head).getLastD (CodePoint.ofChar '<')
    let (found, rest) := readAttributes before (t.drop head)
    let tag (selfClosing : Bool) : StartTag := ⟨Text.lower (t.take n), found, selfClosing⟩
    match rest with
    | [] => .endless
    | c :: others =>
      if c.is '>' then .tag (tag false) others
      else if c.is '/' then .tag (tag true) (others.drop 1)
      else if c.isAsciiLetter || c.is '=' then .endless
      else .stray rest

end MessageExtraction.Markup
