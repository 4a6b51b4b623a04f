import MessageExtraction.Po.Document
import MessageExtraction.Table
import MessageExtraction.Template.Interpolation
import MessageExtraction.Text.Blank
import MessageExtraction.Text.Quoted

/-!
# Options of extraction

Options say how interpolations are delimited, which calls mark a message,
whether references show lines, and which files are scanned in which way. The
way to scan is named for each extension; a name that is unknown is found when
the options are validated.

## Main definitions

* `Strategy` -- a way to scan a file.
* `Options` -- the options of an extraction.
* `Options.markers` -- the names of marking calls.
* `Options.validate` -- why options cannot be used, if they cannot.
* `normalizeExtension` -- the form in which an extension is looked up.
-/

namespace MessageExtraction

/-- A way to scan a file. -/
inductive Strategy
  | template | script
deriving DecidableEq

namespace Strategy

/-- The name of a way to scan a file. -/
def name : Strategy → Text
  | template => "html"
  | script => "js"

/-- All ways to scan a file. -/
def all : List Strategy :=
  [template, script]

/-- The way to scan a file that has a name. -/
def ofName? (name : Text) : Option Strategy :=
  all.find? fun s => s.name = name

end Strategy

/-- The form in which an extension is looked up: without blanks around it and dots before it, in
lower case. -/
def normalizeExtension (raw : Text) : Text :=
  Text.lower ((Text.strip raw).dropWhile fun c => c.is '.')

/-- The names of the options that a document can set. -/
inductive OptionName
  | startDelimiter | endDelimiter | marker | furtherMarkers | lineNumbers | strategies
deriving DecidableEq

namespace OptionName

/-- The name as a document writes it. -/
def text : OptionName → Text
  | startDelimiter => "start_delim"
  | endDelimiter => "end_delim"
  | marker => "marker_name"
  | furtherMarkers => "marker_names"
  | lineNumbers => "line_numbers"
  | strategies => "extensions"

/-- All names of options. -/
def all : List OptionName :=
  [startDelimiter, endDelimiter, marker, furtherMarkers, lineNumbers, strategies]

/-- The name that a document writes so. -/
def ofText? (t : Text) : Option OptionName :=
  all.find? fun n => n.text = t

/-- What is demanded of the value of an option. -/
def demand : OptionName → Text
  | startDelimiter => "must be a string"
  | endDelimiter => "must be a string"
  | marker => "must be a string"
  | furtherMarkers => "must be a list of strings"
  | lineNumbers => "must be true or false"
  | strategies => "must map extensions to strategies"

end OptionName

/-- Why options cannot be used. -/
inductive OptionsError
  | unknownStrategy (strategy extension : Text)
  | notObject (source : Text)
  | unknownOption (key source : Text)
  | wrongType (option : OptionName)
deriving DecidableEq

/-- The words of the reason why options cannot be used. -/
def OptionsError.message : OptionsError → Text
  | unknownStrategy strategy extension =>
    "Unknown strategy " ++ strategy.quoted ++ Text.ofString " for extension " ++ extension.quoted ++
      Text.ofString "; expected one of " ++ Text.join ", " (Strategy.all.map Strategy.name)
  | notObject source => "Options file must contain a JSON object: " ++ source
  | unknownOption key source => "Unknown option " ++ key.quoted ++ Text.ofString " in " ++ source
  | wrongType option => "Option " ++ option.text.quoted ++ Text.ofString " " ++ option.demand

/-- The extensions that are scanned unless options say otherwise. -/
def defaultStrategies : Table Text Text :=
  (["htm", "html", "php", "phtml", "tml", "ejs", "erb"].map fun extension =>
    (Text.ofString extension, Strategy.template.name)) ++
  [(Text.ofString "js", Strategy.script.name)]

/-- The options of an extraction. -/
structure Options where
  delimiters : Template.Delimiters := ⟨"\x7b\x7b", "\x7d\x7d"⟩
  /-- The name of the call that marks a message. -/
  marker : Text := "gettext"
  /-- The names of other calls that do so too. -/
  furtherMarkers : List Text := []
  /-- Whether references show lines. -/
  lineNumbers : Bool := true
  /-- The name of the way to scan the files of an extension. -/
  strategies : Table Text Text := defaultStrategies
  /-- What is done to the file of messages before it is written. -/
  finish : Po.Document → Po.Document := id

namespace Options

/-- The names of marking calls, without empty ones and repeats. -/
def markers (o : Options) : List Text :=
  ((o.marker :: o.furtherMarkers).filter fun name => !name.isEmpty).eraseDups

/-- The way to scan the files of an extension. -/
def strategy? (o : Options) (extension : Text) : Option Strategy :=
  (o.strategies.get? extension).bind Strategy.ofName?

/-- Why options cannot be used, if they cannot: the first way to scan that is unknown. -/
def validate (o : Options) : Option OptionsError :=
  (o.strategies.find? fun e => (Strategy.ofName? e.2).isNone).map fun e => .unknownStrategy e.2 e.1

end Options

end MessageExtraction
