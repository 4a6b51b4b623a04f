import MessageExtraction.Expression.Filters
import MessageExtraction.Markup.Serialize
import MessageExtraction.Script.Calls
import MessageExtraction.Template.Interpolation

/-!
# Scanning templates

A template is markup. The content of an element that is marked as a message
is a message. Other elements yield the messages in their attributes and in the
interpolations of their texts. A script element is scanned as a script, and one
that holds a template as a template of its own, on the lines that it has in the
whole document.

Ampersands are replaced by a private code point while markup is read, so that
entities reach the catalog as they are written.

## Main definitions

* `Template.Setting` -- the delimiters and the names of markers.
* `Template.valueMessages` -- the messages in the value of an attribute.
* `Template.Role` -- how an element is scanned.
* `Template.scan` -- what scanning a template yields.
-/

namespace MessageExtraction.Template

open Markup (Node Attribute)
open Expression (messagesIn noticesIn)

/-- What scanning a template depends on. -/
structure Setting where
  delimiters : Delimiters
  markers : List Text

/-- The code point that stands for an ampersand while markup is read. -/
def sentinel : CodePoint :=
  '\ue000'

/-- Puts the sentinel for every ampersand. -/
def protectEntities (t : Text) : Text :=
  t.map fun c => if c.is '&' then sentinel else c

/-- Puts an ampersand for every sentinel. -/
def restoreEntities (t : Text) : Text :=
  t.map fun c => if c = sentinel then CodePoint.ofChar '&' else c

/-- The expressions of a value: those of its interpolations, or the value itself. -/
def valueExpressions (d : Delimiters) (value : Text) : List Text :=
  match d.expressions value with
  | [] => [value]
  | es => es

/-- The delimiters of a value that has no interpolations. -/
def bareDelimiters : Delimiters :=
  ⟨[], []⟩

/-- The translated literals that a value holds when its expressions hold none. -/
def valueLiterals (d : Delimiters) (value : Text) : List Text :=
  let d := if (d.expressions value).isEmpty then bareDelimiters else d
  (d.literals value).map fun l => l.value.body

/-- The messages in the value of an attribute: those of its expressions, or else the translated
literals. -/
def valueMessages (d : Delimiters) (value : Text) : List Text :=
  match (valueExpressions d value).flatMap messagesIn with
  | [] => valueLiterals d value
  | found => found

/-- The notices that the value of an attribute gives rise to. -/
def valueNotices (d : Delimiters) (value : Text) : List Notice :=
  (valueExpressions d value).flatMap noticesIn

/-- A candidate without plural form, comment and context. -/
def plainCandidate (file : Text) (line : Int) (text : Text) : ScanEvent :=
  .candidate { reference := ⟨file, some line⟩, text }

/-- What the value of an attribute yields. -/
def valueEvents (d : Delimiters) (file : Text) (line : Int) (value : Text) : List ScanEvent :=
  if value.isEmpty then []
  else
    let value := restoreEntities value
    (valueNotices d value).map .notice ++ (valueMessages d value).map (plainCandidate file line)

/-- What an expression in a text yields. -/
def expressionEvents (file : Text) (line : Int) (expression : Text) : List ScanEvent :=
  (noticesIn expression).map .notice ++ (messagesIn expression).map (plainCandidate file line)

/-- What a text yields. -/
def textEvents (d : Delimiters) (file : Text) (line : Int) (text : Text) : List ScanEvent :=
  (d.expressions (restoreEntities text)).flatMap (expressionEvents file line)

mutual

/-- The line on which a node begins, given the line on which what follows it begins: an element
knows its own, and a text begins as many lines above what follows as it has line feeds. -/
def lineOfNode (after : Int) : Node → Int
  | .text t => after - Text.lineFeeds t
  | .special _ t => after - Text.lineFeeds t
  | .element _ _ line _ => line

/-- The line on which the first of several nodes begins, given the line after them. -/
def lineOfNodes (after : Int) : List Node → Int
  | [] => after
  | node :: nodes => lineOfNode (lineOfNodes after nodes) node

end

/-- The texts among nodes and the lines on which they begin. -/
def textsWithLines (after : Int) : List Node → List (Text × Int)
  | [] => []
  | .text t :: nodes => (t, lineOfNodes after nodes - Text.lineFeeds t) :: textsWithLines after nodes
  | _ :: nodes => textsWithLines after nodes

/-- An element and the line of what follows its last child. -/
structure PlacedElement where
  name : Text
  attributes : List Attribute
  line : Nat
  children : List Node
  after : Int

mutual

/-- The elements in a node, in document order. -/
def elementsOfNode (after : Int) : Node → List PlacedElement
  | .text _ => []
  | .special _ _ => []
  | .element name attributes line children =>
    ⟨name, attributes, line, children, after⟩ :: elementsOfNodes after children

/-- The elements in several nodes, in document order. -/
def elementsOfNodes (after : Int) : List Node → List PlacedElement
  | [] => []
  | node :: nodes =>
    elementsOfNode (lineOfNodes after nodes) node ++ elementsOfNodes after nodes

end

/-- The types of scripts that hold templates. -/
def templateTypes : List Text :=
  ["text/ng-template"].map Text.ofString

/-- The types of scripts that hold code; a script without a type holds code too. -/
def codeTypes : List Text :=
  ["text/javascript", "application/javascript"].map Text.ofString

/-- The name of the element and of the attribute that mark a message. -/
def translateName : Text := "translate"

/-- What stands before the name of an attribute in its long form. -/
def longForm : Text := "data-"

/-- How an element is scanned. -/
inductive Role
  /-- Its raw text is a template. -/
  | template
  /-- Its raw text is a script. -/
  | code
  /-- Its content is a message. -/
  | message
  /-- Its attributes and its texts may hold messages. -/
  | plain
deriving DecidableEq

namespace PlacedElement

/-- The value of an attribute of an element. -/
def attribute? (e : PlacedElement) (name : Text) : Option Text :=
  Markup.attributeValue? e.attributes name

/-- The value of an attribute in its short form, or if that is missing or empty, in its long form. -/
def eitherAttribute? (e : PlacedElement) (name : Text) : Option Text :=
  ((nonEmpty? (e.attribute? name)).or (e.attribute? (longForm ++ name))).map restoreEntities

/-- Whether an element is marked as a message. -/
def isMarked (e : PlacedElement) : Bool :=
  e.name = translateName || (e.attribute? translateName).isSome ||
    (e.attribute? (longForm ++ translateName)).isSome

/-- How an element is scanned. -/
def role (e : PlacedElement) : Role :=
  let unscripted : Role := if e.isMarked then .message else .plain
  if e.name.is "script" then
    match nonEmpty? (e.attribute? "type") with
    | none => .code
    | some type =>
      if templateTypes.contains type then .template
      else if codeTypes.contains type then .code
      else unscripted
  else unscripted

/-- The raw text of an element. -/
def rawText (e : PlacedElement) : Text :=
  restoreEntities (Markup.rawContent e.children)

/-- The candidate of an element that is marked as a message. -/
def messageCandidate (e : PlacedElement) (file : Text) (offset : Int) : Candidate where
  reference := ⟨file, some (e.line + offset)⟩
  text := restoreEntities (Markup.innerMarkup e.children)
  plural := e.eitherAttribute? (translateName ++ Text.ofString "-plural")
  comment := e.eitherAttribute? (translateName ++ Text.ofString "-comment")
  context := e.eitherAttribute? (translateName ++ Text.ofString "-context")

/-- What the attributes and the texts of an element yield. -/
def plainEvents (e : PlacedElement) (d : Delimiters) (file : Text) (offset : Int) :
    List ScanEvent :=
  (e.attributes.flatMap fun a => valueEvents d file (e.line + offset) a.value) ++
    (textsWithLines e.after e.children).flatMap fun (t, line) => textEvents d file (line + offset) t

/-- What an element yields, given how templates in it are scanned. -/
def events (e : PlacedElement) (s : Setting) (file : Text) (offset : Int)
    (scanTemplate : Int → Text → List ScanEvent) : List ScanEvent :=
  match e.role with
  | .template => scanTemplate (offset + e.line - 1) e.rawText
  | .code => Script.scan s.markers file (offset + e.line - 1) e.rawText
  | .message => [.candidate (e.messageCandidate file offset)]
  | .plain => e.plainEvents s.delimiters file offset

end PlacedElement

/-- The number of lines of a document. -/
def lineCount (document : Text) : Nat :=
  Text.lineFeeds document + 1

/-- What the nodes of a document yield, given how templates in it are scanned: its own texts first,
then its elements in document order. -/
def nodesEvents (s : Setting) (file : Text) (offset : Int) (lastLine : Int) (nodes : List Node)
    (scanTemplate : Int → Text → List ScanEvent) : List ScanEvent :=
  ((textsWithLines lastLine nodes).flatMap fun (t, line) =>
    textEvents s.delimiters file (line + offset) t) ++
  (elementsOfNodes lastLine nodes).flatMap fun e => e.events s file offset scanTemplate

/-- What scanning a template yields when templates may nest to a depth. -/
def scanToDepth (s : Setting) (file : Text) : (depth : Nat) → (offset : Int) → Text → List ScanEvent
  | 0, _, _ => []
  | depth + 1, offset, document =>
    match Markup.parse? (protectEntities document) with
    | none => [.failure .unreadableMarkup]
    | some nodes =>
      nodesEvents s file offset (lineCount document) nodes (scanToDepth s file depth)

/-- What scanning a template yields; its first line is the line after `offset`. A template in it is
shorter than the document, so templates nest no deeper than the document is long. -/
def scan (s : Setting) (file : Text) (offset : Int) (document : Text) : List ScanEvent :=
  scanToDepth s file (document.length + 1) offset document

end MessageExtraction.Template
