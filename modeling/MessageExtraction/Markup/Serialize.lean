import MessageExtraction.Markup.Tree

/-!
# Writing markup

The content of an element is written back as markup: texts as they are, the
attributes of an element in the order of their names, and an element without
content as its start tag alone if it is void. A declared character encoding is
written as the encoding of the output.

## Main definitions

* `Markup.innerMarkup` -- the markup of the content of an element.
* `Markup.rawContent` -- the text of the content of a raw element.
-/

namespace MessageExtraction.Markup

/-- The value of the attribute with a name. -/
def attributeValue? (attributes : List Attribute) (name : Text) : Option Text :=
  (attributes.find? fun a => a.name = name).map (·.value)

/-- The encoding of the output. -/
def outputEncoding : Text :=
  "utf-8"

/-- Writes the encoding of the output for every `charset=` at the start of a value or after a
semicolon; `atStart` says that one may stand here. -/
def declareCharset (atStart : Bool) : Text → Text
  | [] => []
  | c :: t =>
    let afterBreak := if c.is ';' then t else c :: t
    let blanks := Text.blankLength afterBreak
    let declared := Text.after? "charset=" (afterBreak.drop blanks)
    match if atStart || c.is ';' then declared else none with
    | some rest =>
      let kept := (c :: t).take ((c :: t).length - rest.length)
      let value := rest.takeWhile fun c => !c.is ';'
      kept ++ outputEncoding ++ declareCharset false (t.drop (kept.length + value.length - 1))
    | none => c :: declareCharset false t
termination_by t => t.length
decreasing_by
  · simp only [List.length_drop, List.length_cons]
    omega
  · simp

/-- A value between quotation marks. -/
def quotedValue (value : Text) : Text :=
  let double : Text := Text.ofChar '\x22'
  let single : Text := Text.ofChar '\x27'
  if value.any (·.is '\x22') then
    if value.any (·.is '\x27') then double ++ value.replaceAll double "&quot;" ++ double
    else single ++ value ++ single
  else double ++ value ++ double

/-- The value of an attribute as it is written. -/
def writtenValue (name : Text) (attributes : List Attribute) (a : Attribute) : Text :=
  if name.is "meta" then
    if a.name.is "charset" then outputEncoding
    else if a.name.is "content" && (attributeValue? attributes "charset").isNone &&
        ((attributeValue? attributes "http-equiv").map Text.lower == some (Text.ofString "content-type"))
      then declareCharset true a.value
    else a.value
  else a.value

/-- A start tag as it is written. -/
def writeStartTag (name : Text) (attributes : List Attribute) : Text :=
  let sorted := attributes.mergeSort fun a b => a.name < b.name || a.name = b.name
  Text.ofChar '<' ++ name ++
    (sorted.flatMap fun a =>
      Text.ofChar ' ' ++ a.name ++ Text.ofChar '=' ++ quotedValue (writtenValue name attributes a)) ++
    Text.ofChar '>'

/-- An end tag as it is written. -/
def writeEndTag (name : Text) : Text :=
  "</" ++ name ++ Text.ofChar '>'

/-- Markup that is neither a tag nor text as it is written. -/
def writeSpecial : SpecialKind → Text → Text
  | .comment, t => "<!--" ++ t ++ "-->"
  | .cdata, t => "<![CDATA[" ++ t ++ "]]>"
  | .declaration, t => "<?" ++ t ++ "?>"
  | .doctype, t => "<!DOCTYPE " ++ t ++ ">\n"
  | .instruction, t => "<?" ++ t ++ ">"

mutual

/-- A node as it is written. -/
def Node.write : Node → Text
  | .text t => t
  | .special kind t => writeSpecial kind t
  | .element name attributes _ children =>
    writeStartTag name attributes ++ innerMarkup children ++
      if children.isEmpty && voidNames.contains name then [] else writeEndTag name

/-- Nodes as they are written one after the other. -/
def innerMarkup : List Node → Text
  | [] => []
  | node :: nodes => node.write ++ innerMarkup nodes

end

/-- The text of the content of a raw element: its texts, and other markup without its marks. -/
def rawContent (children : List Node) : Text :=
  children.flatMap fun
    | .text t => t
    | .special _ t => t
    | .element name attributes line children => (Node.element name attributes line children).write

end MessageExtraction.Markup
