import MessageExtraction.Markup.Event

/-!
# Document trees

The events of a document make up a tree. An end tag closes the nearest open
element of its name with all that is open inside it, and is ignored when no such
element is open. A void element closes at once, and one later end tag of its
name is passed over for it. A text of nothing but white space shrinks to a line
feed or a space, unless its white space is preserved.

## Main definitions

* `Markup.Node` -- an element, a text or other markup.
* `Markup.Builder` -- the state of building a tree.
* `Markup.build` -- the tree of events.
* `Markup.parse?` -- the tree of a document.
-/

namespace MessageExtraction.Markup

/-- The parts of a document. -/
inductive Node
  | text (t : Text)
  | special (kind : SpecialKind) (content : Text)
  | element (name : Text) (attributes : List Attribute) (line : Nat) (children : List Node)

/-- An element whose end has not come yet, with its children in reverse. -/
structure OpenElement where
  name : Text
  attributes : List Attribute
  line : Nat
  children : List Node

/-- The element that an open element becomes at its end. -/
def OpenElement.close (e : OpenElement) : Node :=
  .element e.name e.attributes e.line e.children.reverse

/-- The elements that have no content. -/
def voidNames : List Text :=
  ["area", "base", "br", "col", "embed", "hr", "img", "input", "keygen", "link", "menuitem", "meta",
    "param", "source", "track", "wbr", "basefont", "bgsound", "command", "frame", "image",
    "isindex", "nextid", "spacer"].map Text.ofString

/-- The elements that preserve white space. -/
def preservingNames : List Text :=
  ["pre", "textarea"].map Text.ofString

/-- The state of building a tree: the open elements from the innermost out, what stands outside of
them all in reverse, the text that may still go on, and the void elements whose end tags are to be
passed over. -/
structure Builder where
  opened : List OpenElement := []
  outside : List Node := []
  pending : Text := []
  passedOver : List Text := []

/-- The white space of a document. -/
def isDocumentSpace (c : CodePoint) : Bool :=
  c.isAny [' ', '\n', '\t', '\x0c', '\r']

/-- A text as the tree keeps it. -/
def shrink (preserved : Bool) (t : Text) : Text :=
  if preserved || !t.all isDocumentSpace then t
  else if t.any (·.is '\n') then Text.ofChar '\n'
  else Text.ofChar ' '

namespace Builder

/-- Whether white space is preserved where the next node goes. -/
def preserves (b : Builder) : Bool :=
  b.opened.any fun e => preservingNames.contains e.name

/-- Adds a node to the innermost open element. -/
def addNode (b : Builder) (node : Node) : Builder :=
  match b.opened with
  | [] => { b with outside := node :: b.outside }
  | e :: others => { b with opened := { e with children := node :: e.children } :: others }

/-- Ends the text that may go on. -/
def endText (b : Builder) : Builder :=
  if b.pending.isEmpty then b
  else { b.addNode (.text (shrink b.preserves b.pending)) with pending := [] }

/-- Closes the innermost open element. -/
def closeInnermost (b : Builder) : Builder :=
  match b.opened with
  | [] => b
  | e :: others => addNode { b with opened := others } e.close

/-- Closes the innermost open elements, a number of them. -/
def closeInnermosts (b : Builder) : Nat → Builder
  | 0 => b
  | n + 1 => b.closeInnermost.closeInnermosts n

/-- Closes the nearest open element of a name and all that is open inside it. -/
def closeNamed (b : Builder) (name : Text) : Builder :=
  match b.opened.findIdx? fun e => e.name = name with
  | none => b
  | some i => b.closeInnermosts (i + 1)

/-- The end tag of an element, which is passed over for a void element. -/
def endTag (b : Builder) (name : Text) : Builder :=
  if b.passedOver.contains name then { b with passedOver := b.passedOver.erase name }
  else b.endText.closeNamed name

/-- The attributes of a tag: a name that is repeated has its last value in its first place. -/
def distinctAttributes (attributes : List Attribute) : List Attribute :=
  attributes.foldl (fun kept a =>
    if kept.any fun k => k.name = a.name then
      kept.map fun k => if k.name = a.name then a else k
    else kept ++ [a]) []

/-- The start tag of an element, and the end of the element if it has no content. -/
def startTag (b : Builder) (tag : StartTag) (line : Nat) : Builder :=
  let b := b.endText
  let opened :=
    { b with opened := ⟨tag.name, distinctAttributes tag.attributes, line, []⟩ :: b.opened }
  if tag.selfClosing then opened.endTag tag.name
  else if voidNames.contains tag.name then
    let closed := opened.closeInnermost
    { closed with passedOver := closed.passedOver ++ [tag.name] }
  else opened

/-- The state after one more event. -/
def add (b : Builder) : Event → Builder
  | .text t => { b with pending := b.pending ++ t }
  | .startTag tag line => b.startTag tag line
  | .endTag name => b.endTag name
  | .special kind content =>
    let b := b.endText
    b.addNode (.special kind (shrink b.preserves content))

/-- The tree when no event is left. -/
def finish (b : Builder) : List Node :=
  let b := b.endText
  (b.closeInnermosts b.opened.length).outside.reverse

end Builder

/-- The tree of events. -/
def build (events : List Event) : List Node :=
  (events.foldl Builder.add {}).finish

/-- The tree of a document, or nothing if it is unreadable. -/
def parse? (document : Text) : Option (List Node) :=
  (read? document).map build

end MessageExtraction.Markup
