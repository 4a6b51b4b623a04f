import MessageExtraction.Options.Basic
import MessageExtraction.Template.Scan

/-!
# Extraction

The extension of a source decides how it is scanned, and a source of unknown
extension yields nothing. A catalog gathers what the sources of a project yield,
one source after another, until one of them fails.

## Main definitions

* `Source` -- a named text.
* `Options.events` -- what scanning a source yields.
* `Options.extract` -- the catalog of several sources.
* `Options.render` -- the text of the file of messages.
-/

namespace MessageExtraction

/-- A named text. -/
structure Source where
  name : Text
  content : Text
deriving DecidableEq

/-- What follows the last dot of a name, or the whole name if it has no dot. -/
def Source.extension (s : Source) : Text :=
  (s.name.reverse.takeWhile fun c => !c.is '.').reverse

namespace Options

/-- What scanning a script yields; its first line is the line after `offset`. -/
def scriptEvents (o : Options) (s : Source) (offset : Int) : List ScanEvent :=
  Script.scan o.markers s.name offset s.content

/-- What scanning a template yields. -/
def templateEvents (o : Options) (s : Source) : List ScanEvent :=
  Template.scan ⟨o.delimiters, o.markers⟩ s.name 0 s.content

/-- What scanning a source in the way of its extension yields. -/
def events (o : Options) (s : Source) : List ScanEvent :=
  match o.strategy? s.extension with
  | some .template => o.templateEvents s
  | some .script => o.scriptEvents s 0
  | none => []

/-- The catalog before the first source. -/
def emptyCatalog (o : Options) : Catalog :=
  { lineNumbers := o.lineNumbers }

/-- A catalog after several sources, until one of them fails. -/
def extractInto (o : Options) (c : Catalog) : List Source → Extraction
  | [] => ⟨c, [], none⟩
  | s :: sources =>
    let first := c.record (o.events s)
    match first.error with
    | some _ => first
    | none =>
      let others := o.extractInto first.catalog sources
      { others with notices := first.notices ++ others.notices }

/-- The catalog of several sources. -/
def extract (o : Options) (sources : List Source) : Extraction :=
  o.extractInto o.emptyCatalog sources

/-- The text of the file of messages of a catalog. -/
def render (o : Options) (c : Catalog) : Text :=
  (o.finish (Po.Document.ofCatalog c)).render

end Options

end MessageExtraction
