import MessageExtraction.Catalog.Basic
import MessageExtraction.Po.Field
import MessageExtraction.Table
import MessageExtraction.Text.LowerCase

/-!
# PO files

A PO file is a header and entries. The header is the entry of the empty
message, whose string lists the metadata of the file, the known names
first and in a fixed order, the others in natural order. An entry shows its
comments, its references, and the fields of its message.

## Main definitions

* `Po.Document` -- the metadata and the entries of a file.
* `Po.Document.ofCatalog` -- the file of a catalog.
* `Po.Document.render` -- the text of a file.
-/

namespace MessageExtraction.Po

/-- The metadata and the entries of a PO file. -/
structure Document where
  metadata : Table Text Text
  entries : List Entry

/-- The names of metadata that come first, in order. -/
def knownNames : List Text :=
  ["Project-Id-Version", "Report-Msgid-Bugs-To", "POT-Creation-Date", "PO-Revision-Date",
    "Last-Translator", "Language-Team", "Language", "MIME-Version", "Content-Type",
    "Content-Transfer-Encoding", "Plural-Forms"].map Text.ofString

/-- The metadata of every new file. -/
def defaultMetadata : Table Text Text :=
  [("Content-Type", "text/plain; charset=UTF-8"), ("Content-Transfer-Encoding", "8bit"),
    ("Project-Id-Version", "")]

/-- A run of digits or a text between two such runs. -/
inductive NaturalPart
  | text (t : Text)
  | number (n : Nat)

/-- The parts of a name in natural order: a run of digits counts as a number, and the case of the
text between runs does not count. -/
def naturalParts (name : Text) : List NaturalPart :=
  (split name).map fun part =>
    if !part.isEmpty && part.all CodePoint.isDecimalDigit then
      .number (part.foldl (fun n c => 10 * n + c.digit?.getD 0) 0)
    else .text part.lower
where
  /-- Puts a code point in front of the first text, or if it is a digit, in front of the run of
  digits that follows an empty first text. -/
  cons (c : CodePoint) (parts : List Text) : List Text :=
    if c.isAsciiDigit then
      match parts with
      | [] :: (d :: run) :: parts => [] :: (c :: d :: run) :: parts
      | parts => [] :: [c] :: parts
    else match parts with
      | [] => [[c]]
      | part :: parts => (c :: part) :: parts
  /-- The texts and the runs of digits of a name in turn, a text first. -/
  split : Text → List Text
    | [] => [[]]
    | c :: t => cons c (split t)

/-- The order of parts: numbers by value, texts by code points, and a number before a text. -/
def NaturalPart.before : NaturalPart → NaturalPart → Bool
  | .number m, .number n => m < n
  | .text s, .text t => s < t
  | .number _, .text _ => true
  | .text _, .number _ => false

/-- The order of names part by part, a name before those that go on after it. -/
def naturallyBefore : List NaturalPart → List NaturalPart → Bool
  | [], _ => true
  | _ :: _, [] => false
  | a :: as, b :: bs => if a.before b then true else if b.before a then false else naturallyBefore as bs

/-- The metadata in the order of the header. -/
def orderedMetadata (metadata : Table Text Text) : List (Text × Text) :=
  (knownNames.filterMap fun name => metadata.find? fun m => m.1 = name) ++
    (metadata.filter fun m => !knownNames.contains m.1).mergeSort fun a b =>
      naturallyBefore (naturalParts a.1) (naturalParts b.1)

/-- The lines of the comments of an entry. -/
def commentLines (comments : List Text) : List Text :=
  let mark : Text := "#. "
  let whole := Text.join ['\n'] comments
  if whole.isEmpty then []
  else (whole.splitOn '\n').flatMap fun line =>
    if lineWidth < line.length + mark.length then Wrap.markedLines mark lineWidth line
    else [mark ++ line]

/-- The lines of the references of an entry. A hyphen divides no reference. -/
def referenceLines (references : List Text) : List Text :=
  let mark : Text := "#: "
  let whole := Text.join [' '] (references.map fun r =>
    let (file, line) := Reference.split r
    Reference.joinParts file line)
  if references.isEmpty then []
  else if lineWidth < whole.length + mark.length then
    (Wrap.markedLines mark lineWidth (whole.substitute '-' '*')).map fun line =>
      line.substitute '*' '-'
  else [mark ++ whole]

/-- The lines of the fields of a message. -/
def fieldLines (context : Option Text) (msgid : Text) (plural : Option Text)
    (strings : List Text) : List Text :=
  (match context with
    | some context => field "msgctxt" context
    | none => []) ++
  field "msgid" msgid ++
  match plural with
  | some plural =>
    field "msgid_plural" plural ++
      (strings.zipIdx.flatMap fun t =>
        field ("msgstr[" ++ Text.ofNat t.2 ++ "]") t.1)
  | none => field "msgstr" (strings.headD [])

/-- The text of an entry. -/
def renderEntry (e : Entry) : Text :=
  Text.unlines (commentLines e.comments ++ referenceLines e.references ++
    fieldLines e.context e.msgid e.plural e.messageStrings)

/-- The text of the header. -/
def renderHeader (metadata : Table Text Text) : Text :=
  let value := (orderedMetadata metadata).flatMap fun m =>
    m.1 ++ Text.ofString ": " ++ m.2 ++ Text.ofChar '\n'
  Text.unlines (fieldLines none [] none [value])

namespace Document

/-- The file of a catalog. -/
def ofCatalog (c : Catalog) : Document :=
  ⟨defaultMetadata, c.entries⟩

/-- Sets a value of the metadata. -/
def setMetadata (d : Document) (name value : Text) : Document :=
  { d with metadata := d.metadata.set name value }

/-- The text of a file. -/
def render (d : Document) : Text :=
  "#\n" ++ Text.join ['\n'] (renderHeader d.metadata :: d.entries.map renderEntry)

end Document

end MessageExtraction.Po
