import MessageExtraction.Json.Reader
import MessageExtraction.Options.Basic
import MessageExtraction.Text.Utf8

/-!
# Options from a document

A JSON object sets options by name. Its members are taken in order, each one is
checked and set, and the result is validated at the end. When a member cannot
be set, those before it have been.

## Main definitions

* `Options.set` -- options after one member of a document.
* `Options.overlay` -- options after all members.
* `LoadError` -- why a file of options cannot be used.
* `Options.load` -- options after a file has been read onto them.
-/

namespace MessageExtraction

/-- Why a file of options cannot be used. -/
inductive LoadError
  | undecodable (fault : Utf8.Fault)
  | unreadable (fault : Json.Fault)
  | options (error : OptionsError)
deriving DecidableEq

namespace Options

/-- The options with the value of an option that a document gives, if the value is of its type. -/
def assign? (o : Options) (option : OptionName) (value : Json.Value) : Option Options :=
  match option with
  | .startDelimiter =>
    value.text?.map fun t => { o with delimiters := { o.delimiters with opening := t } }
  | .endDelimiter =>
    value.text?.map fun t => { o with delimiters := { o.delimiters with closing := t } }
  | .marker => value.text?.map fun t => { o with marker := t }
  | .furtherMarkers => value.texts?.map fun ts => { o with furtherMarkers := ts }
  | .lineNumbers => value.bool?.map fun b => { o with lineNumbers := b }
  | .strategies =>
    value.textTable?.map fun table =>
      { o with strategies := Table.ofList (table.map fun e => (normalizeExtension e.1, e.2)) }

/-- The options after one member of a document. -/
def set (source : Text) (o : Options) (key : Text) (value : Json.Value) :
    Except OptionsError Options :=
  match OptionName.ofText? key with
  | none => .error (.unknownOption key source)
  | some option =>
    match o.assign? option value with
    | some after => .ok after
    | none => .error (.wrongType option)

/-- The options after the members of a document, as far as they can be set, and why they cannot be
used if they cannot. -/
def overlay (source : Text) (o : Options) : List (Text × Json.Value) → Options × Option OptionsError
  | [] => (o, o.validate)
  | (key, value) :: members =>
    match o.set source key value with
    | .ok after => after.overlay source members
    | .error e => (o, some e)

/-- The options after a document has been laid over them. -/
def overlayValue (source : Text) (o : Options) : Json.Value → Options × Option OptionsError
  | .object members => o.overlay source members
  | _ => (o, some (.notObject source))

/-- The options after a file has been read onto them, and why they cannot be used if they
cannot. -/
def load (source : Text) (content : Bytes) (base : Options) : Options × Option LoadError :=
  match Text.ofFile content with
  | .error fault => (base, some (.undecodable fault))
  | .ok document =>
    match Json.read document with
    | .error fault => (base, some (.unreadable fault))
    | .ok value =>
      let (after, error) := base.overlayValue source value
      (after, error.map .options)

end Options

end MessageExtraction
