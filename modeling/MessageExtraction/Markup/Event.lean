import MessageExtraction.Markup.Tag

/-!
# Markup as events

A document is read from left to right into texts, tags, comments and other
markup. Whatever is not well formed is taken as text, except for a marked
section of unknown kind, which makes the whole document unreadable. After the
start tag of a raw element all is text up to its end tag, and without an end tag
the rest of the document is dropped.

## Main definitions

* `Markup.Event` -- a text, a tag or other markup.
* `Markup.read?` -- the events of a document.
-/

namespace MessageExtraction.Markup

/-- The kinds of markup that are neither tags nor text. -/
inductive SpecialKind
  | comment | cdata | declaration | doctype | instruction
deriving DecidableEq

/-- What a document is read into. The line of a tag is the line of its `<`, the first line of the
document being line one. -/
inductive Event
  | text (t : Text)
  | startTag (tag : StartTag) (line : Nat)
  | endTag (name : Text)
  | special (kind : SpecialKind) (content : Text)
deriving DecidableEq

/-- The elements whose content is raw text. -/
def rawNames : List Text :=
  ["script", "style"].map Text.ofString

/-- The offset at which a pattern first matches, and the length of the match. -/
def search (pattern : Text → Option Nat) : Text → Option (Nat × Nat)
  | [] => (pattern []).map fun n => (0, n)
  | c :: t =>
    match pattern (c :: t) with
    | some n => some (0, n)
    | none => (search pattern t).map fun (i, n) => (i + 1, n)

/-- The offset of the first `>`. -/
def closing? (t : Text) : Option Nat :=
  (search (fun t => if Text.startsWith t ['>'] then some 1 else none) t).map (·.1)

/-- The length of a closing of a special piece at the start of a text: the characters of `marks`
with blanks before each of them but the first. -/
def closer (marks : List Char) (t : Text) : Option Nat :=
  match marks with
  | [] => some 0
  | m :: others => go others (Text.after? [CodePoint.ofChar m] t) 1
where
  /-- The length after the marks still to come. -/
  go : List Char → Option Text → Nat → Option Nat
    | _, none, _ => none
    | [], some _, n => some n
    | m :: others, some t, n =>
      let blanks := Text.blankLength t
      go others (Text.after? [CodePoint.ofChar m] (t.drop blanks)) (n + blanks + 1)

/-- The length of the end of a comment: two hyphens, blanks and `>`. -/
def commentCloser (t : Text) : Option Nat :=
  (Text.after? ['-'] t).bind fun t => (closer ['-', '>'] t).map (· + 1)

/-- Whether a code point is a letter of a name without regard to case. The long s and the two
Turkish forms of the letter i count as the letters. -/
def matchesLetter (letter c : CodePoint) : Bool :=
  CodePoint.lower c == [letter] || (letter.is 's' && c.is '\u017f') ||
    (letter.is 'i' && (c.is '\u0130' || c.is '\u0131'))

/-- The rest of a text after a name, without regard to case. -/
def afterName? : (name t : Text) → Option Text
  | [], t => some t
  | _ :: _, [] => none
  | a :: name, c :: t => if matchesLetter a c then afterName? name t else none

/-- Whether the end tag of a raw element stands at the start of a text. -/
def endsRaw (name t : Text) : Bool :=
  match Text.after? ['<', '/'] t with
  | none => false
  | some t =>
    match afterName? name (t.drop (Text.blankLength t)) with
    | none => false
    | some t => Text.startsWith (t.drop (Text.blankLength t)) ['>']

/-- The name of a well-formed end tag at the start of a text, the opening `</` left out. -/
def endTagName? (t : Text) : Option Text :=
  let t := t.drop (Text.blankLength t)
  let isNamePoint (c : CodePoint) : Bool :=
    c.isAsciiLetter || c.isAsciiDigit || c.isAny ['-', '.', ':', '_']
  let name := t.takeWhile isNamePoint
  let rest := t.drop name.length
  let begins := match name with
    | c :: _ => c.isAsciiLetter
    | [] => false
  if begins && Text.startsWith (rest.drop (Text.blankLength rest)) ['>'] then some (Text.lower name) else none

/-- What can stand at a `<`. -/
inductive Piece
  /-- Events, how many code points they take, and the raw element that is open after them. -/
  | events (events : List Event) (length : Nat) (raw : Option Text)
  /-- Something that does not end. -/
  | endless
  /-- A marked section of unknown kind. -/
  | unreadable

/-- The end tag at the start of a text. -/
def readEndTag (raw : Option Text) (t : Text) : Piece :=
  match closing? t with
  | none => .endless
  | some close =>
    let whole := t.take (close + 1)
    match endTagName? (t.drop 2) with
    | some name =>
      if raw.isSome && raw ≠ some name then .events [.text whole] (close + 1) raw
      else .events [.endTag name] (close + 1) none
    | none =>
      if raw.isSome then .events [.text whole] (close + 1) raw
      else
        let body := t.drop 2
        match tagNameLength? body with
        | some n =>
          let afterName := n + gapLength (body.drop n)
          match closing? (body.drop afterName) with
          | some i => .events [.endTag (Text.lower (body.take n))] (2 + afterName + i + 1) none
          | none => .endless
        | none =>
          if close = 2 then .events [] 3 none
          else .events [.special .comment (body.take (close - 2))] (close + 1) none

/-- A comment, the opening `<!--` included. -/
def readComment (t : Text) : Piece :=
  match search commentCloser (t.drop 4) with
  | none => .endless
  | some (i, n) => .events [.special .comment ((t.drop 4).take i)] (4 + i + n) none

/-- The names of marked sections that end at two brackets. -/
def sectionNames : List Text :=
  ["temp", "cdata", "ignore", "include", "rcdata"].map Text.ofString

/-- The names of marked sections that end at one bracket. -/
def conditionNames : List Text :=
  ["if", "else", "endif"].map Text.ofString

/-- A marked section of a known kind, given how it ends. -/
def readSection (t : Text) (close : Text → Option Nat) : Piece :=
  let body := t.drop 3
  match search close body with
  | none => .endless
  | some (i, n) =>
    let content := body.take i
    let opening : Text := "cdata["
    let piece : Event :=
      if Text.lower (content.take opening.length) = opening then
        .special .cdata (content.drop opening.length)
      else .special .declaration content
    .events [piece] (3 + i + n) none

/-- A marked section, the opening `<![` included. -/
def readMarkedSection (t : Text) : Piece :=
  let body := t.drop 3
  match body with
  | [] => .endless
  | c :: _ =>
    if c.isAsciiLetter then
      let name := body.takeWhile fun c =>
        c.isAsciiLetter || c.isAsciiDigit || c.isAny ['-', '_', '.']
      let afterName := body.drop name.length
      if afterName.length = Text.blankLength afterName then .endless
      else if sectionNames.contains (Text.lower name) then readSection t (closer [']', ']', '>'])
      else if conditionNames.contains (Text.lower name) then readSection t (closer [']', '>'])
      else .unreadable
    else .unreadable

/-- Markup that begins with `<!` or `<?`, up to the next `>`. -/
def readUpToClosing (kind : SpecialKind) (skipped dropped : Nat) (t : Text) : Piece :=
  match closing? (t.drop skipped) with
  | none => .endless
  | some i =>
    .events [.special kind (((t.take (skipped + i)).drop 2).drop dropped)] (skipped + i + 1) none

/-- What stands at the start of a text that begins with `<`, on a given line. -/
def readPiece (raw : Option Text) (line : Nat) (t : Text) : Piece :=
  match t.drop 1 with
  | [] => .events [.text t] 1 raw
  | c :: others =>
    if c.isAsciiLetter then
      match StartTag.read (c :: others) with
      | .tag tag rest =>
        .events [.startTag tag line] (t.length - rest.length)
          (if !tag.selfClosing && rawNames.contains tag.name then some tag.name else raw)
      | .stray rest => .events [.text (t.take (t.length - rest.length))] (t.length - rest.length) raw
      | .endless => .endless
    else if c.is '/' then readEndTag raw t
    else if c.is '!' then
      if Text.startsWith others ['-', '-'] then readComment t
      else if Text.startsWith others ['['] then readMarkedSection t
      else if Text.lower (others.take 7) = Text.ofString "doctype" then readUpToClosing .doctype 9 8 t
      else readUpToClosing .comment 2 0 t
    else if c.is '?' then readUpToClosing .instruction 2 0 t
    else .events [.text (t.take 1)] 1 raw

/-- How much of a text that does not end is taken as text: up to the next `>` and with it, else up
to the next `<`, else the first code point. -/
def strayLength (t : Text) : Nat :=
  match closing? t with
  | some i => i + 1
  | none =>
    match search (fun t => if Text.startsWith t ['<'] then some 1 else none) (t.drop 1) with
    | some (i, _) => i + 1
    | none => 1

/-- What a text begins with: text up to the next `<`, or what stands at it. Inside a raw element
the next `<` is that of its end tag, and without one there is nothing more. -/
def readNext (raw : Option Text) (line : Nat) (t : Text) : Piece :=
  let offset : Option Nat := match raw with
    | none => some (t.takeWhile fun c => !c.is '<').length
    | some name => (search (fun t => if endsRaw name t then some 1 else none) t).map (·.1)
  match offset with
  | none => .events [] t.length raw
  | some 0 =>
    match readPiece raw line t with
    | .endless => .events [.text (t.take (strayLength t))] (strayLength t) raw
    | piece => piece
  | some n => .events [.text (t.take n)] n raw

/-- The events of a document from a place on a line inside a raw element or outside of one, or
nothing for an unreadable document. -/
def readFrom? (raw : Option Text) (line : Nat) : Text → Option (List Event)
  | [] => some []
  | c :: t =>
    match readNext raw line (c :: t) with
    | .events events length raw =>
      let taken := c :: t.take (length - 1)
      (readFrom? raw (line + Text.lineFeeds taken) (t.drop (length - 1))).map (events ++ ·)
    | .endless => none
    | .unreadable => none
termination_by t => t.length
decreasing_by
  simp only [List.length_drop, List.length_cons]
  omega

/-- The events of a document, or nothing if it is unreadable. -/
def read? (document : Text) : Option (List Event) :=
  readFrom? none 1 document

end MessageExtraction.Markup
