import MessageExtraction.Project.Path
import MessageExtraction.Text.Digit
import MessageExtraction.Text.Quoted

/-!
# Arguments of the command line

An argument that begins with a hyphen is an option, unless it is a lone hyphen,
looks like a negative number, or holds a space and is no option. An option may
be shortened as long as only one begins so. Its value follows as the next
argument or after an equals sign. Two hyphens end the options. All other
arguments are inputs, and those must stand side by side.

## Main definitions

* `Switch` -- the options.
* `Word` -- what an argument is.
* `ArgumentError` -- why arguments cannot be used.
* `Arguments` -- what the arguments ask for.
* `Request.parse` -- reading arguments.
-/

namespace MessageExtraction.CommandLine

/-- The options. -/
inductive Switch
  | help | output | config | startDelimiter | endDelimiter | marker | lineNumbers | noLineNumbers
  | verbose
deriving DecidableEq

namespace Switch

/-- The spellings of all options, in the order in which they are looked through. -/
def spellings : List (Text × Switch) :=
  [("-h", help), ("--help", help), ("--output", output), ("--config", config),
    ("--start-delim", startDelimiter), ("--end-delim", endDelimiter), ("--marker-name", marker),
    ("--line-numbers", lineNumbers), ("--no-line-numbers", noLineNumbers), ("--verbose", verbose)]

/-- The name of an option in messages; an option and its contrary have one name. -/
def name : Switch → Text
  | help => "-h/--help"
  | output => "--output"
  | config => "--config"
  | startDelimiter => "--start-delim"
  | endDelimiter => "--end-delim"
  | marker => "--marker-name"
  | lineNumbers => "--line-numbers/--no-line-numbers"
  | noLineNumbers => "--line-numbers/--no-line-numbers"
  | verbose => "--verbose"

/-- Whether an option takes a value. -/
def takesValue : Switch → Bool
  | help => false
  | output => true
  | config => true
  | startDelimiter => true
  | endDelimiter => true
  | marker => true
  | lineNumbers => false
  | noLineNumbers => false
  | verbose => false

end Switch

/-- An option as it is meant: its full spelling, and the value that is joined to it. -/
structure Spelled where
  spelling : Text
  switch : Switch
  joined : Option Text

/-- What an argument is. -/
inductive Word
  /-- An input, or the value of the option before it. -/
  | plain (t : Text)
  /-- The two hyphens that end the options. -/
  | endOfOptions
  /-- An option. -/
  | option (o : Spelled)
  /-- Something that looks like an option and is none. -/
  | unknown (t : Text)

/-- Why arguments cannot be used. -/
inductive ArgumentError
  | ambiguous (argument : Text) (meanings : List Text)
  | valueExpected (switch : Switch)
  | valueIgnored (switch : Switch) (value : Text)
  | unrecognized (arguments : List Text)
deriving DecidableEq

/-- The words of the reason why arguments cannot be used. -/
def ArgumentError.message : ArgumentError → Text
  | ambiguous argument meanings =>
    "ambiguous option: " ++ argument ++ Text.ofString " could match " ++ Text.join ", " meanings
  | valueExpected switch => "argument " ++ switch.name ++ Text.ofString ": expected one argument"
  | valueIgnored switch value =>
    "argument " ++ switch.name ++ Text.ofString ": ignored explicit argument " ++ value.quoted
  | unrecognized arguments => "unrecognized arguments: " ++ Text.join " " arguments

/-- The two hyphens that end the options. -/
def doubleHyphen : Text := "--"

/-- The option of a full spelling. -/
def spelled? (spelling : Text) (joined : Option Text) : Option Spelled :=
  (Switch.spellings.find? fun s => s.1 = spelling).map fun s => ⟨s.1, s.2, joined⟩

/-- What stands before and after the first equals sign of an argument. -/
def splitEquals (t : Text) : Text × Option Text :=
  let (head, tail) := t.span fun c => !c.is '='
  (head, tail.tail?)

/-- The options that an argument may mean when it is no full spelling: those that it is the
beginning of, and for a single hyphen the option of one letter that is joined to its value. -/
def meanings (t : Text) : List Spelled :=
  if Text.startsWith t doubleHyphen then
    let (head, value) := splitEquals t
    Switch.spellings.filterMap fun s =>
      if Text.startsWith s.1 head then some ⟨s.1, s.2, value⟩ else none
  else
    Switch.spellings.filterMap fun s =>
      if s.1 = t.take 2 then some ⟨s.1, s.2, some (t.drop 2)⟩
      else if Text.startsWith s.1 t then some ⟨s.1, s.2, none⟩
      else none

/-- Whether a text is made of decimal digits, and of at least one. -/
def isNumeral (t : Text) : Bool :=
  !t.isEmpty && t.all CodePoint.isDecimalDigit

/-- Whether an argument looks like a negative number: a hyphen before digits, or before a point that
digits may precede and must follow. A line feed at its end does not count. -/
def isNegativeNumber (t : Text) : Bool :=
  match t with
  | [] => false
  | c :: t =>
    let t := if Text.endsWith t "\n" then t.dropLast else t
    let whole := t.takeWhile CodePoint.isDecimalDigit
    c.is '-' && (isNumeral t || match t.drop whole.length with
      | point :: places => point.is '.' && isNumeral places
      | [] => false)

/-- What an argument before the end of the options is. -/
def classify (t : Text) : Except ArgumentError Word :=
  if !Text.startsWith t "-" then .ok (.plain t)
  else match spelled? t none with
    | some o => .ok (.option o)
    | none =>
      if t.length = 1 then .ok (.plain t)
      else match (splitEquals t).2.bind fun value => spelled? (splitEquals t).1 (some value) with
        | some o => .ok (.option o)
        | none =>
          match meanings t with
          | [o] => .ok (.option o)
          | [] =>
            if isNegativeNumber t || t.any fun c => c.is ' ' then .ok (.plain t)
            else .ok (.unknown t)
          | several => .error (.ambiguous t (several.map Spelled.spelling))

/-- What all arguments are. -/
def wordsOf : List Text → Except ArgumentError (List Word)
  | [] => .ok []
  | t :: ts =>
    if t = doubleHyphen then .ok (.endOfOptions :: ts.map .plain)
    else do
      let word ← classify t
      let words ← wordsOf ts
      return word :: words

/-- What the arguments ask for. -/
structure Arguments where
  inputs : List Path := [Path.ofText "."]
  output : Path := Path.ofText "template.pot"
  config : Option Path := none
  startDelimiter : Option Text := none
  endDelimiter : Option Text := none
  markers : List Text := []
  lineNumbers : Option Bool := none
  verbose : Bool := false

namespace Arguments

/-- The arguments after an option without a value. -/
def switchOn (a : Arguments) : Switch → Arguments
  | .lineNumbers => { a with lineNumbers := some true }
  | .noLineNumbers => { a with lineNumbers := some false }
  | .verbose => { a with verbose := true }
  | _ => a

/-- The arguments after an option with its value. Two hyphens that are joined to an option are no
value: the option is as if it had none, which a delimiter and the output cannot be. -/
def assign (a : Arguments) (switch : Switch) (value : Text) : Except ArgumentError Arguments :=
  let absent := value = doubleHyphen
  match switch with
  | .config => .ok { a with config := if absent then none else some (Path.ofText value) }
  | .marker => .ok { a with markers := a.markers ++ [if absent then [] else value] }
  | .output => if absent then .error (.valueExpected switch) else .ok { a with output := Path.ofText value }
  | .startDelimiter =>
    if absent then .error (.valueExpected switch) else .ok { a with startDelimiter := some value }
  | .endDelimiter =>
    if absent then .error (.valueExpected switch) else .ok { a with endDelimiter := some value }
  | _ => .ok a

end Arguments

/-- What a command line asks for. -/
inductive Request
  /-- A description of the options. -/
  | help
  /-- A run. -/
  | run (a : Arguments)

/-- What has been read of a command line. -/
structure Progress where
  arguments : Arguments := {}
  /-- Whether inputs have been read. -/
  hasInputs : Bool := false
  /-- The arguments that have no meaning. -/
  extras : List Text := []

namespace Progress

/-- Reads arguments that stand side by side and are no options: the first of them are the inputs,
the others have no meaning. -/
def takePlain (p : Progress) (texts : List Text) (inputs : List Text) : Progress :=
  if p.hasInputs then { p with extras := p.extras ++ texts }
  else
    { p with
      hasInputs := true
      arguments := if inputs.isEmpty then p.arguments
        else { p.arguments with inputs := inputs.map Path.ofText } }

end Progress

/-- The letters that are joined to an option of one letter are options of one letter themselves;
`help` is the only one. -/
def joinedLetters : Text → Except ArgumentError Request
  | [] => .ok .help
  | c :: t =>
    if c.is 'h' then joinedLetters t else .error (.valueIgnored .help (c :: t))

/-- An option without a value to which a text is joined. -/
def refuseJoined (o : Spelled) (value : Text) : Except ArgumentError Request :=
  if Text.startsWith o.spelling doubleHyphen || value.isEmpty then
    .error (.valueIgnored o.switch value)
  else joinedLetters value

/-- Reads words one after another. The inputs that have been read without a break are held back in
`texts`, all of them, and `inputs`, those that count. -/
def readWords (p : Progress) (texts inputs : List Text) : List Word → Except ArgumentError Request
  | [] =>
    let p := if texts.isEmpty then p else p.takePlain texts inputs
    if p.extras.isEmpty then .ok (.run p.arguments) else .error (.unrecognized p.extras)
  | .plain t :: words => readWords p (texts ++ [t]) (inputs ++ [t]) words
  | .endOfOptions :: words => readWords p (texts ++ [doubleHyphen]) inputs words
  | .unknown t :: words =>
    let p := if texts.isEmpty then p else p.takePlain texts inputs
    readWords { p with extras := p.extras ++ [t] } [] [] words
  | .option o :: words =>
    let p := if texts.isEmpty then p else p.takePlain texts inputs
    if o.switch.takesValue then
      match o.joined, words with
      | some value, words => do
        readWords { p with arguments := ← p.arguments.assign o.switch value } [] [] words
      | none, .plain value :: words => do
        readWords { p with arguments := ← p.arguments.assign o.switch value } [] [] words
      | none, _ => .error (.valueExpected o.switch)
    else
      match o.joined with
      | some value => refuseJoined o value
      | none =>
        if o.switch = .help then .ok .help
        else readWords { p with arguments := p.arguments.switchOn o.switch } [] [] words

/-- What a command line asks for, or why its arguments cannot be used. -/
def Request.parse (arguments : List Text) : Except ArgumentError Request := do
  readWords {} [] [] (← wordsOf arguments)

end MessageExtraction.CommandLine
